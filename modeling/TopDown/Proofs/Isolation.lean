import TopDown.Proofs.Batch
import TopDown.Proofs.RunName
import TopDown.Proofs.Selection

/-!
# The symbols of a batch are alone

Whatever the order in which the runs of a batch take their turns, the report of each symbol is the one
of a run of this symbol alone, from the same first state (`TopDown.Pipeline.batch_isolated`). This
rests on two things that have been shown before: a step is private to its symbol
(`TopDown.Proofs.Share`), and the name of a run is no more than a name (`TopDown.Proofs.RunName`).

A batch has no reports at all if the selection of one of its symbols breaks down. The symbols are not
alone in this: the others lose the reports that they would have had.
-/

namespace TopDown

namespace Pipeline

/-! ### Labels of reports -/

section Labels

variable {σ : Type} {processors : ByTimeframe (Processor σ)} {b : Book} {options : RunOptions}

theorem resultOf_labels (r : Run) (ending : Ending) :
    (r.resultOf ending).symbol = r.symbol ∧ (r.resultOf ending).runId = r.runId := by
  cases ending <;> exact ⟨rfl, rfl⟩

theorem resultOf_start (r : Run) (ending : Ending) : (r.resultOf ending).start = r.start := by
  cases ending <;> rfl

theorem withChoice_labels (result : SymbolResult) (decision : Option Decision) :
    (withChoice result decision).symbol = result.symbol ∧
      (withChoice result decision).runId = result.runId := by
  cases decision <;> exact ⟨rfl, rfl⟩

theorem withChoice_status (result : SymbolResult) (decision : Option Decision) :
    (withChoice result decision).status = result.status ∧
      (withChoice result decision).start = result.start := by
  cases decision <;> exact ⟨rfl, rfl⟩

/-- A report has the steps of its run, and its result but for the timeframe to enter on. -/
theorem report_eq_ok {r : Run} {report : SignalReport} (h : Pipeline.report b r = .ok report) :
    ∃ decision, report.result = withChoice r.result decision ∧ report.runId = r.runId ∧
      report.steps = r.steps := by
  unfold Pipeline.report at h
  dsimp only at h
  split at h
  · cases h
  · cases h
    exact ⟨_, rfl, rfl, rfl⟩

/-- A report bears the symbol and the name of its run. -/
theorem runSymbol_labels {runId : RunId} {symbol : String} {s : σ} {report : SignalReport}
    (h : (runSymbol processors b options runId symbol s).1 = .ok report) :
    report.result.symbol = symbol ∧ report.runId = runId := by
  rcases hrun : (Run.begin symbol runId b options).complete processors b options s with ⟨r, _, _⟩
  obtain ⟨⟨rfl, rfl, -⟩, -⟩ := Run.complete_finished hrun
  have hreport : Pipeline.report b r = .ok report := by
    rw [runSymbol, hrun] at h
    exact h
  obtain ⟨decision, hresult, hname, -⟩ := report_eq_ok hreport
  refine ⟨?_, hname⟩
  rw [hresult, (withChoice_labels _ _).1]
  exact (resultOf_labels r _).1

/-- Where no condition breaks down, every symbol has its report. -/
theorem runSymbol_steady (hb : b.Coherent) (hsteady : b.registry.Steady) (runId : RunId)
    (symbol : String) (s : σ) :
    ∃ report, (runSymbol processors b options runId symbol s).1 = .ok report := by
  show ∃ report, Pipeline.report b
    ((Run.begin symbol runId b options).complete processors b options s).1 = .ok report
  unfold Pipeline.report
  dsimp only
  split
  · rename_i crash hcrash
    obtain ⟨decision, hdecision, hcrash⟩ := Option.bind_eq_some_iff.mp hcrash
    obtain ⟨input, -, rfl⟩ := Option.map_eq_some_iff.mp hdecision
    rw [b.select_steady hb hsteady input] at hcrash
    cases hcrash
  · exact ⟨_, rfl⟩

end Labels

/-! ### Batches -/

section Batches

variable {b : Book} {options : RunOptions} {name : Nat → RunId} {symbols : List String}

/-- The processors of a program that reads its bars from a folder. -/
def folderProcessors (folder : String) (period : Nat) : ByTimeframe (Processor (World BarFiles)) :=
  ruleProcessors (BarFiles.source folder) (Snapshot.builder period)

theorem secluded_folderProcessors (folder : String) (period : Nat) :
    Secluded (folderProcessors folder period) (World.share BarFiles.share) :=
  secluded_ruleProcessors (BarFiles.secluded_source folder) _

/-- **What the reports of a batch are** that has them: one for each symbol, in order, and each of them
that of its symbol alone. -/
theorem reports_of_alone {processors : ByTimeframe (Processor (World BarFiles))} {w : World BarFiles}
    {reports : List SignalReport}
    (h : (alone processors b options name symbols w).mapM id = .ok reports) :
    reports.map (·.result.symbol) = symbols ∧
      reports.map (·.runId) = symbols.mapIdx (fun i _ => name i) ∧
      ∀ (i : Nat) symbol report, symbols[i]? = some symbol → reports[i]? = some report →
        (runSymbol processors b options (name i) symbol w).1 = .ok report := by
  have hall := mapM_id_eq_ok.mp h
  have hlen : reports.length = symbols.length := by
    have hlengths := congrArg List.length hall
    rw [alone, List.length_mapIdx, List.length_map] at hlengths
    exact hlengths.symm
  have heach (i : Nat) (symbol : String) (report : SignalReport) (hsymbol : symbols[i]? = some symbol)
      (hreport : reports[i]? = some report) :
      (runSymbol processors b options (name i) symbol w).1 = .ok report := by
    have hi : (alone processors b options name symbols w)[i]? = (reports.map .ok)[i]? := by rw [hall]
    rw [alone, List.getElem?_mapIdx, List.getElem?_map, hsymbol, hreport] at hi
    exact Option.some.inj hi
  -- what each report tells by itself, the list of them tells
  have hlist {α : Type} (f : SignalReport → α) (g : Nat → String → α)
      (hfg : ∀ i symbol report, (runSymbol processors b options (name i) symbol w).1 = .ok report →
        f report = g i symbol) : reports.map f = symbols.mapIdx g := by
    refine List.ext_getElem (by rw [List.length_map, List.length_mapIdx, hlen]) fun i hi hi' => ?_
    rw [List.length_map] at hi
    rw [List.getElem_map, List.getElem_mapIdx]
    exact hfg i _ _ (heach i _ _ (List.getElem?_eq_getElem (hlen ▸ hi)) (List.getElem?_eq_getElem hi))
  refine ⟨?_, hlist _ _ fun i symbol report hok => (runSymbol_labels hok).2, heach⟩
  rw [hlist _ (fun _ symbol => symbol) fun i symbol report hok => (runSymbol_labels hok).1]
  refine List.ext_getElem? fun i => ?_
  rw [List.getElem?_mapIdx]
  exact Option.map_id'

/-- **When a batch has reports**: when each of its symbols has one alone. -/
theorem exists_reports_iff {processors : ByTimeframe (Processor (World BarFiles))}
    {w : World BarFiles} :
    (∃ reports, (alone processors b options name symbols w).mapM id = .ok reports) ↔
      ∀ (i : Nat) symbol, symbols[i]? = some symbol →
        ∃ report, (runSymbol processors b options (name i) symbol w).1 = .ok report := by
  rw [exists_mapM_id]
  constructor
  · intro h i symbol hsymbol
    refine h _ (List.mem_of_getElem? (i := i) ?_)
    rw [alone, List.getElem?_mapIdx, hsymbol]
    rfl
  · intro h x hx
    obtain ⟨i, hi⟩ := List.getElem?_of_mem hx
    rw [alone, List.getElem?_mapIdx] at hi
    obtain ⟨symbol, hsymbol, rfl⟩ := Option.map_eq_some_iff.mp hi
    exact h i symbol hsymbol

/-- The names of the runs of a batch: a name that is asked for goes to a single symbol only. -/
def runNames (asked : Option RunId) (name : Nat → RunId) (symbols : List String) : Nat → RunId :=
  match asked with
  | some id => if symbols.length = 1 then fun _ => id else name
  | none => name

/-- **The symbols of a batch are alone**, for every compiled book, all files, any state of the kill
switch, and whatever has been kept of the files. A batch of distinct symbols ends under every schedule
that gives each run enough turns. However it has come to its end, it has the reports that it has when
the symbols are run one after the other: one for each symbol, in order, and each of them the one that
its symbol has alone, from the same first state. Under any other name a symbol has the same report
alone, but for the name, if no condition heeds a text. There are no reports at all if one of the symbols
has none alone, which cannot be where no condition breaks down. -/
theorem batch_isolated {base : Registry} {config : Json}
    (h : Book.compile base config = .ok b) (options : RunOptions) (folder : String) (period : Nat)
    (asked : Option RunId) (name : Nat → RunId) (hnodup : symbols.Nodup) (w : World BarFiles) :
    (∀ schedule batch, (Batch.begin b options (runNames asked name symbols) symbols w).follow
          (folderProcessors folder period) b options schedule = batch →
      ((∀ i < symbols.length,
          (options.start.getD b.start).sequence.length ≤ schedule.count i) → batch.Ended) ∧
      (batch.Ended → batch.reports b =
        (runAll (folderProcessors folder period) b options asked name symbols w).1)) ∧
    (∀ reports, (runAll (folderProcessors folder period) b options asked name symbols w).1 =
        .ok reports →
      reports.map (·.result.symbol) = symbols ∧
      reports.map (·.runId) = symbols.mapIdx (fun i _ => runNames asked name symbols i) ∧
      ∀ (i : Nat) symbol report, symbols[i]? = some symbol → reports[i]? = some report →
        (runSymbol (folderProcessors folder period) b options (runNames asked name symbols i)
          symbol w).1 = .ok report ∧
        (base.HeedsFigures → ∀ runId, ∃ lone,
          (runSymbol (folderProcessors folder period) b options runId symbol w).1 = .ok lone ∧
          report = lone.inRun (runNames asked name symbols i))) ∧
    ((∃ reports, (runAll (folderProcessors folder period) b options asked name symbols w).1 =
        .ok reports) ↔
      ∀ (i : Nat) symbol, symbols[i]? = some symbol → ∃ report,
        (runSymbol (folderProcessors folder period) b options (runNames asked name symbols i)
          symbol w).1 = .ok report) ∧
    (b.registry.Steady → ∃ reports,
      (runAll (folderProcessors folder period) b options asked name symbols w).1 = .ok reports) := by
  have hsecluded := secluded_folderProcessors folder period
  have hall : (runAll (folderProcessors folder period) b options asked name symbols w).1 =
      (alone (folderProcessors folder period) b options (runNames asked name symbols) symbols
        w).mapM id := by
    have hfrom := runFrom_eq hsecluded b options (runNames asked name symbols) hnodup 0 w
    simp only [Nat.zero_add] at hfrom
    exact hfrom
  refine ⟨?_, ?_, ?_, ?_⟩
  · rintro schedule batch rfl
    refine ⟨Batch.ended_of_count hsecluded hnodup, fun hended => ?_⟩
    rw [Batch.reports_eq hsecluded hnodup hended, hall]
  · intro reports hreports
    rw [hall] at hreports
    obtain ⟨hsymbols, hnames, heach⟩ := reports_of_alone hreports
    refine ⟨hsymbols, hnames, fun i symbol report hsymbol hreport => ?_⟩
    have hown := heach i symbol report hsymbol hreport
    refine ⟨hown, fun hbase runId => ?_⟩
    have hfigures := Book.compile_heedsFigures h hbase
    have hnames : TakeNames (folderProcessors folder period) b :=
      takeNames_ruleProcessors hfigures (BarFiles.source folder) period
    have hother := runSymbol_inRun hfigures hnames options symbol runId
      (runNames asked name symbols i) w
    rw [hown] at hother
    obtain ⟨lone, hlone, hlabel⟩ := map_eq_ok.mp hother.symm
    exact ⟨lone, hlone, hlabel.symm⟩
  · rw [hall]
    exact exists_reports_iff
  · intro hsteady
    rw [hall]
    exact exists_reports_iff.mpr fun i symbol _ =>
      runSymbol_steady (Book.compile_coherent h) hsteady _ symbol w

end Batches

/-! ### Two batches -/

/-- A configuration with one timeframe, on which rising prices speak for buying. The mandatory filters
of the selection are left open. -/
def risingMinutes (filters : List Json) : Table Json :=
  [("execution_selector", .obj [("filters_mandatory", .arr filters)]),
    ("validation", .obj [
      ("start_from_timeframe", .str "1m"),
      ("timeframe", .obj [("1m", .obj [
        ("long", .arr [.obj [("increasing", .str "close"), ("n", .int 1)]]),
        ("min_bars", .int 2)])])])]

/-- A folder with a file of one symbol, which has been read. -/
def oneFile : BarFiles :=
  let bar (minute : Nat) (close : Float) : Bar :=
    { symbol := "AUSDT", timeframe := .m1, openTime := ⟨60 * minute, 0⟩, opening := 1, high := 2
      low := 1, close, volume := 5, extras := [] }
  { disk := Disk.empty.write "bars/AUSDT_1m.csv"
      ⟨"open_time,open,high,low,close,volume\n0,1,2,1,1,5\n60000,1,2,1,2,5\n", 0⟩
    kept := [(("AUSDT", .m1), 0, [bar 0 1, bar 1 2])] }

/-- A run at noon. -/
def noon : RunOptions := { now := ⟨43200, 0⟩ }

/-- **A batch of two symbols**, whose runs take their turns against the order of the symbols. The first
is ready and the second has no bars; both have the reports that they have alone. -/
theorem batch_isolated_rising : ∃ b reports batch,
    Book.compile .builtin (.obj (risingMinutes [])) = .ok b ∧ ["AUSDT", "BUSDT"].Nodup ∧
    (Batch.begin b noon toString ["AUSDT", "BUSDT"] ⟨.clear, oneFile⟩).follow
      (folderProcessors "bars" 14) b noon [1, 0] = batch ∧
    batch.reports b = .ok reports ∧
    reports.map (fun r => (r.result.symbol, r.result.status)) =
      [("AUSDT", .ready), ("BUSDT", .skipped)] ∧
    ∀ (i : Nat) symbol report, ["AUSDT", "BUSDT"][i]? = some symbol → reports[i]? = some report →
      ∃ lone, (runSymbol (folderProcessors "bars" 14) b noon "alone" symbol ⟨.clear, oneFile⟩).1 =
        .ok lone ∧ report = lone.inRun (toString i) := by
  have hrun : ((Book.compile .builtin (.obj (risingMinutes []))).toOption.map fun b =>
      (b.start, (runAll (folderProcessors "bars" 14) b noon none toString ["AUSDT", "BUSDT"]
        ⟨.clear, oneFile⟩).1.toOption.map (·.map fun r => (r.result.symbol, r.result.status)))) =
      some (.m1, some [("AUSDT", .ready), ("BUSDT", .skipped)]) := by decide +kernel
  obtain ⟨b, hb, hrun⟩ := Option.map_eq_some_iff.mp hrun
  obtain ⟨hstart, hrun⟩ := Prod.mk.inj hrun
  obtain ⟨reports, hreports, hstatus⟩ := Option.map_eq_some_iff.mp hrun
  have hcompile := toOption_eq_some.mp hb
  have hnodup : ["AUSDT", "BUSDT"].Nodup := by decide
  obtain ⟨hturns, hall, -⟩ :=
    batch_isolated hcompile noon "bars" 14 none toString hnodup ⟨.clear, oneFile⟩
  obtain ⟨hended, hsame⟩ := hturns [1, 0] _ rfl
  refine ⟨b, reports, _, hcompile, hnodup, rfl, ?_, hstatus, ?_⟩
  · rw [← toOption_eq_some.mp hreports]
    refine hsame (hended fun i hi => ?_)
    show (b.start).sequence.length ≤ _
    rw [hstart]
    match i, hi with
    | 0, _ => decide
    | 1, _ => decide
  · intro i symbol report hsymbol hreport
    obtain ⟨-, -, heach⟩ := hall reports (toOption_eq_some.mp hreports)
    exact (heach i symbol report hsymbol hreport).2 Registry.builtin_heedsFigures "alone"

/-- A filter whose window cannot be counted. -/
def uncountable : Json :=
  .obj [("cool_down_bars", .int 18446744073709551615), ("field", .str "close"), ("min_gap", .int 1)]

/-- **A symbol takes the reports of the others with it**: the selection of the first symbol breaks down,
and the second has no report, although it has one alone. -/
theorem batch_uncountable : ∃ b,
    Book.compile .builtin (.obj (risingMinutes [uncountable])) = .ok b ∧
    (∀ reports, (runAll (folderProcessors "bars" 14) b noon none toString ["AUSDT", "BUSDT"]
      ⟨.clear, oneFile⟩).1 ≠ .ok reports) ∧
    ∃ report, (runSymbol (folderProcessors "bars" 14) b noon "alone" "BUSDT"
      ⟨.clear, oneFile⟩).1 = .ok report ∧ report.result.status = .skipped := by
  have hrun : ((Book.compile .builtin (.obj (risingMinutes [uncountable]))).toOption.map fun b =>
      ((runAll (folderProcessors "bars" 14) b noon none toString ["AUSDT", "BUSDT"]
          ⟨.clear, oneFile⟩).1.toOption.isSome,
        (runSymbol (folderProcessors "bars" 14) b noon "alone" "BUSDT"
          ⟨.clear, oneFile⟩).1.toOption.map (·.result.status))) =
      some (false, some .skipped) := by decide +kernel
  obtain ⟨b, hb, hrun⟩ := Option.map_eq_some_iff.mp hrun
  obtain ⟨hbatch, hlone⟩ := Prod.mk.inj hrun
  obtain ⟨report, hreport, hstatus⟩ := Option.map_eq_some_iff.mp hlone
  refine ⟨b, toOption_eq_some.mp hb, fun reports hreports => ?_, report,
    toOption_eq_some.mp hreport, hstatus⟩
  rw [hreports] at hbatch
  cases hbatch

end Pipeline

end TopDown
