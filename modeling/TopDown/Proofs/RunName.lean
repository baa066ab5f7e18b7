import TopDown.Pipeline
import TopDown.Proofs.Descent
import TopDown.Proofs.Figures
import TopDown.Proofs.Gate
import TopDown.Snapshot

/-!
# The name of a run is no more than a name

Every run has a name of its own. The name goes into the contexts that are made for the run, as a text
among the facts, and into the report. Nothing else depends on it: the report of a run under another
name is the same report, with the other name written into it (`TopDown.Pipeline.runSymbol_inRun`).

We write the other name into the parts of a run from the inside out: into a context
(`TopDown.Snapshot.builder_inRun`), into the result of a step (`TopDown.takeStep_inRun`), and into a
run (`TopDown.Run.advance_inRun`). The rules do not notice it, because they heed figures only
(`TopDown.Proofs.Figures`).
-/

namespace TopDown

/-! ### Writing a name -/

/-- The key of the name of a run among the facts. -/
def runKey : String := "run_id"

/-- The context with the name of a run. -/
def Context.inRun (runId : RunId) (c : Context) : Context :=
  c.withFact runKey (.text runId)

/-- The step with the name of a run. -/
def StepResult.inRun (runId : RunId) (step : StepResult) : StepResult :=
  { step with context := step.context.map (Context.inRun runId) }

/-- The run with another name. -/
def Run.inRun (runId : RunId) (r : Run) : Run :=
  { r with runId, steps := r.steps.map (StepResult.inRun runId) }

/-- The report with the name of another run. -/
def SignalReport.inRun (runId : RunId) (r : SignalReport) : SignalReport :=
  { r with
    runId
    result := { r.result with runId }
    steps := r.steps.map (StepResult.inRun runId) }

theorem Context.sameFigures_inRun {c : Context} {runId : RunId} (h : c.inRun runId = c)
    (other : RunId) : c.SameFigures (c.inRun other) := by
  refine ⟨rfl, rfl, fun key => ?_⟩
  have hkey : c.get? key = if key = runKey then some (.text runId) else c.get? key := by
    conv_lhs => rw [← h]
    exact Table.lookup_put _ _ _ _
  have hother : (c.inRun other).get? key =
      if key = runKey then some (.text other) else c.get? key := Table.lookup_put _ _ _ _
  by_cases hrun : key = runKey
  · rw [if_pos hrun] at hkey hother
    exact .inr ⟨runId, other, hkey, hother⟩
  · rw [if_neg hrun] at hother
    exact .inl hother.symm

/-! ### Snapshots -/

namespace Snapshot

theorem ordered_withColumn {facts : Table Fact} (h : facts.Ordered) (name : String)
    (values : List Float) : (withColumn name values facts).Ordered := by
  unfold withColumn
  cases values.reverse with
  | nil => exact h
  | cons newest older =>
    have hnewest : Table.Ordered
        (if newest.isFinite then Table.put name (.number newest) facts else facts) := by
      split
      · exact h.put _ _
      · exact h
    refine Table.Ordered.put ?_ _ _
    cases older with
    | nil => exact hnewest
    | cons previous rest =>
      dsimp only
      split
      · exact hnewest.put _ _
      · exact hnewest

theorem ordered_columnFacts (bars : List Bar) : (columnFacts bars).Ordered := by
  have hcolumns {α : Type} (columns : List α) (name : α → String) (values : α → List Float)
      {facts : Table Fact} (h : facts.Ordered) :
      (columns.foldl (fun facts n => withColumn (name n) (values n) facts) facts).Ordered := by
    induction columns generalizing facts with
    | nil => exact h
    | cons n rest ih => exact ih (ordered_withColumn h _ _)
  exact hcolumns _ id _ (hcolumns coreColumns _ (fun e => bars.map e.2) List.Pairwise.nil)

/-- The facts of the bars stand in order. -/
theorem ordered_barFacts (period : Nat) (bars : List Bar) : (barFacts period bars).Ordered := by
  unfold barFacts
  extract_lets columns averages facts
  have hcolumns : columns.Ordered := ordered_columnFacts bars
  have hfacts : facts.Ordered := by
    unfold facts
    split
    · exact hcolumns
    · exact hcolumns.put _ _
  split
  · exact hfacts
  · split
    · exact hfacts.put _ _
    · exact hfacts

/-- The facts with the signals of coarser timeframes. -/
def withSignals (known : List KnownSignal) (facts : Table Fact) : Table Fact :=
  known.foldl
    (fun facts k => Table.put ("signal_" ++ k.timeframe.name) (.text k.side.name) facts) facts

/-- The name of a run may as well be written after the signals. -/
theorem withSignals_put {facts : Table Fact} (h : facts.Ordered) (known : List KnownSignal)
    (name : Fact) : withSignals known (Table.put runKey name facts) =
      Table.put runKey name (withSignals known facts) := by
  induction known generalizing facts with
  | nil => rfl
  | cons k rest ih =>
    -- no timeframe has a signal under the key of the run
    have hne : "signal_" ++ k.timeframe.name ≠ runKey := by
      cases k.timeframe <;> decide
    show withSignals rest (Table.put _ _ (Table.put runKey name facts)) = _
    rw [h.put_comm hne, ih (h.put _ _)]
    rfl

theorem ordered_withSignals {facts : Table Fact} (h : facts.Ordered) (known : List KnownSignal) :
    (withSignals known facts).Ordered := by
  induction known generalizing facts with
  | nil => exact h
  | cons k rest ih => exact ih (h.put _ _)

/-- The facts of a context, but for the name of the run. -/
def namelessFacts (period : Nat) (symbol : String) (tf : Timeframe) (bars : List Bar)
    (known : List KnownSignal) : Table Fact :=
  let facts := barFacts (max 1 period) bars
  let facts := Table.put "symbol" (.text symbol) facts
  let facts := Table.put "timeframe" (.text tf.name) facts
  withSignals known (Table.put "bar_count" (.number (Float.ofNat bars.length)) facts)

theorem ordered_namelessFacts (period : Nat) (symbol : String) (tf : Timeframe) (bars : List Bar)
    (known : List KnownSignal) : (namelessFacts period symbol tf bars known).Ordered :=
  ordered_withSignals ((((ordered_barFacts _ bars).put _ _).put _ _).put _ _) known

/-- What a context is made of. -/
theorem builder_eq (period : Nat) (symbol : String) (tf : Timeframe) (bars : List Bar)
    (known : List KnownSignal) (runId : RunId) : builder period symbol tf bars runId known =
      if bars.isEmpty then
        .error (.fault (.dataSource ("no bars to build a " ++ tf.name ++ " context for " ++ symbol)))
      else .ok (Context.inRun runId
        (Context.ofFacts symbol tf (namelessFacts period symbol tf bars known))) := by
  unfold builder build
  by_cases hbars : bars.isEmpty = true
  · rw [if_pos hbars, if_pos hbars]
  · rw [if_neg hbars, if_neg hbars]
    have hordered := ((((ordered_barFacts (max 1 period) bars).put "symbol" (.text symbol)).put
      "timeframe" (.text tf.name)).put "bar_count" (.number (Float.ofNat bars.length)))
    have hput := withSignals_put hordered known (.text runId)
    exact congrArg (fun facts => Except.ok (Context.ofFacts symbol tf facts)) hput

/-- **The context of a run is that of another run**, with the name written into it. -/
theorem builder_inRun (period : Nat) (symbol : String) (tf : Timeframe) (bars : List Bar)
    (known : List KnownSignal) (runId other : RunId) :
    builder period symbol tf bars other known =
      (builder period symbol tf bars runId known).map (Context.inRun other) := by
  rw [builder_eq, builder_eq]
  split
  · rfl
  · have hordered := ordered_namelessFacts period symbol tf bars known
    have hput := hordered.put_put runKey (.text runId) (.text other)
    exact congrArg (fun facts => Except.ok (Context.ofFacts symbol tf facts)) hput.symm

end Snapshot

/-! ### Steps -/

section Steps

variable {b : Book}

theorem checkRules_figures (hb : b.registry.HeedsFigures) (tf : Timeframe) {c c' : Context}
    (h : c.SameFigures c') : checkRules b tf c = checkRules b tf c' := by
  unfold checkRules
  cases b.blocks tf with
  | none => rfl
  | some block =>
    simp only [Book.evaluateList_figures hb h]

theorem ofStop_inRun (tf : Timeframe) (stop : Stop) (runId : RunId) :
    (StepResult.ofStop tf stop).map (StepResult.inRun runId) = StepResult.ofStop tf stop := by
  cases stop <;> rfl

/-- A gate that is shut leaves no context. -/
theorem shutGate_inRun {tf : Timeframe} {symbol : String} {view : RunView} {switch : KillSwitch}
    {last : Bar} {result : StepResult}
    (h : shutGate tf symbol view switch last = .ok (some result)) (runId : RunId) :
    result.inRun runId = result := by
  rcases shutGate_cases h with rfl | rfl | rfl <;> rfl

theorem stepBehindBars_inRun (period : Nat) (tf : Timeframe) (symbol : String) {view : RunView}
    (hb : view.book.registry.HeedsFigures) (switch : KillSwitch) (bars : List Bar) (last : Bar)
    (runId : RunId) :
    stepBehindBars (Snapshot.builder period) tf symbol { view with runId } switch bars last =
      (stepBehindBars (Snapshot.builder period) tf symbol view switch bars last).map
        (StepResult.inRun runId) := by
  unfold stepBehindBars
  -- the gates do not ask for the name
  rw [show shutGate tf symbol { view with runId } switch last =
    shutGate tf symbol view switch last from rfl]
  cases hshut : shutGate tf symbol view switch last with
  | error crash => rfl
  | ok shut =>
    cases shut with
    | some result => exact congrArg Except.ok (shutGate_inRun hshut runId).symm
    | none =>
      dsimp only [bind, Except.bind]
      have hname := Snapshot.builder_inRun period symbol tf bars view.prior view.runId
      rw [hname runId]
      cases hbuild : Snapshot.builder period symbol tf bars view.runId view.prior with
      | error stop => exact (ofStop_inRun tf stop runId).symm
      | ok c =>
        -- the context has the name of its run, so another name changes a text only
        have hself : c = c.inRun view.runId := by
          have hbuilt := hname view.runId
          rw [hbuild] at hbuilt
          exact Except.ok.inj hbuilt
        have hfigures := Context.sameFigures_inRun hself.symm runId
        simp only [Except.map, ← checkRules_figures hb tf hfigures, ← hfigures.number]
        cases checkRules view.book tf c <;> rfl

/-- **A step under another name** is the same step, with the other name written into it. -/
theorem takeStep_inRun {σ : Type} (source : BarSource σ) (period : Nat) (tf : Timeframe)
    (symbol : String) {view : RunView} (hb : view.book.registry.HeedsFigures) (w : World σ)
    (runId : RunId) :
    takeStep source (Snapshot.builder period) tf symbol { view with runId } w =
      ((takeStep source (Snapshot.builder period) tf symbol view w).1.map (StepResult.inRun runId),
        (takeStep source (Snapshot.builder period) tf symbol view w).2) := by
  unfold takeStep
  dsimp only
  rcases source.bars symbol tf (view.book.minBars tf) w.source with ⟨stop | bars, s⟩
  · exact Prod.ext (ofStop_inRun tf stop runId).symm rfl
  · dsimp only
    split
    · unfold stepShortOfBars
      dsimp only
      split <;> rfl
    · rcases source.last symbol tf s with ⟨stop | newest, s⟩
      · exact Prod.ext (ofStop_inRun tf stop runId).symm rfl
      · dsimp only
        cases newest.or bars.getLast? with
        | none => rfl
        | some last =>
          exact Prod.ext (stepBehindBars_inRun period tf symbol hb w.switch bars last runId) rfl

end Steps

/-! ### Runs -/

/-- **Processors that take a name for a name**: under another name they do the same, and write the
other name into the step. -/
def TakeNames {σ : Type} (processors : ByTimeframe (Processor σ)) (b : Book) : Prop :=
  ∀ tf process, processors tf = some process → ∀ symbol view s runId, view.book = b →
    process symbol { view with runId } s =
      ((process symbol view s).1.map (StepResult.inRun runId), (process symbol view s).2)

theorem takeNames_ruleProcessors {σ : Type} {b : Book} (hb : b.registry.HeedsFigures)
    (source : BarSource σ) (period : Nat) :
    TakeNames (ruleProcessors source (Snapshot.builder period)) b := by
  intro tf process hp symbol view s runId hview
  cases hp
  subst hview
  exact takeStep_inRun source period tf symbol hb s runId

namespace Run

variable {σ : Type} {processors : ByTimeframe (Processor σ)} {b : Book} {options : RunOptions}

theorem attempt_inRun (hnames : TakeNames processors b) (tf : Timeframe) (symbol : String)
    {view : RunView} (hview : view.book = b) (s : σ) (runId : RunId) :
    attempt processors tf symbol { view with runId } s =
      ((attempt processors tf symbol view s).1.inRun runId,
        (attempt processors tf symbol view s).2) := by
  unfold attempt
  cases hp : processors tf with
  | none => rfl
  | some process =>
    dsimp only
    rw [hnames tf process hp symbol view s runId hview]
    rcases process symbol view s with ⟨crash | step, s⟩ <;> rfl

theorem getLast?_inRun (steps : List StepResult) (runId : RunId) :
    (steps.map (StepResult.inRun runId)).getLast? =
      steps.getLast?.map (StepResult.inRun runId) :=
  List.getLast?_map

theorem stop_inRun (r : Run) (step : StepResult) (ending : Ending) (runId : RunId) :
    (r.inRun runId).stop (step.inRun runId) ending = (r.stop step ending).inRun runId := by
  simp only [stop, Run.inRun, List.map_append, List.map_singleton]

theorem accept_inRun (r : Run) (rest : List Timeframe) (step : StepResult) (runId : RunId) :
    (r.inRun runId).accept rest (step.inRun runId) = (r.accept rest step).inRun runId := by
  simp only [accept, Run.inRun, List.map_append, List.map_singleton]
  rfl

/-- A run goes the same way under another name. -/
theorem take_inRun (r : Run) (tf : Timeframe) (rest : List Timeframe) (step : StepResult)
    (runId : RunId) :
    (r.inRun runId).take tf rest (step.inRun runId) = (r.take tf rest step).inRun runId := by
  have hmisaligned : (r.inRun runId).misalignment? (step.inRun runId) = r.misalignment? step := by
    unfold misalignment?
    rw [show (r.inRun runId).steps.getLast? = _ from getLast?_inRun r.steps runId]
    cases r.steps.getLast? <;> rfl
  have hvalid : (step.inRun runId).isValid = step.isValid := rfl
  unfold take
  rw [hmisaligned, hvalid]
  cases step.isValid with
  | false => exact stop_inRun r step _ runId
  | true =>
    cases r.misalignment? step with
    | some parent => exact stop_inRun r step _ runId
    | none => exact accept_inRun r rest step runId

/-- **One step of a run under another name.** -/
theorem advance_inRun (hnames : TakeNames processors b) (options : RunOptions) (r : Run) (s : σ)
    (runId : RunId) :
    ((r.inRun runId).advance processors b options s).1 =
        (r.advance processors b options s).1.inRun runId ∧
      ((r.inRun runId).advance processors b options s).2.2 =
        (r.advance processors b options s).2.2 := by
  unfold advance
  rw [show (r.inRun runId).ending = r.ending from rfl,
    show (r.inRun runId).pending = r.pending from rfl]
  cases r.ending with
  | some ending => exact ⟨rfl, rfl⟩
  | none =>
    cases r.pending with
    | nil => exact ⟨rfl, rfl⟩
    | cons tf rest =>
      have hview : (r.view b options).book = b := rfl
      have hattempt : attempt processors tf r.symbol ((r.inRun runId).view b options) s =
          ((attempt processors tf r.symbol (r.view b options) s).1.inRun runId,
            (attempt processors tf r.symbol (r.view b options) s).2) :=
        attempt_inRun hnames tf r.symbol hview s runId
      have hsymbol : (r.inRun runId).symbol = r.symbol := rfl
      dsimp only
      rw [hsymbol, hattempt]
      exact ⟨take_inRun r tf rest _ runId, rfl⟩

/-- A run of several steps under another name. -/
theorem advanceTimes_inRun (hnames : TakeNames processors b) (n : Nat) (r : Run) (s : σ)
    (runId : RunId) :
    ((r.inRun runId).advanceTimes processors b options n s).1 =
        (r.advanceTimes processors b options n s).1.inRun runId ∧
      ((r.inRun runId).advanceTimes processors b options n s).2.2 =
        (r.advanceTimes processors b options n s).2.2 := by
  induction n generalizing r s with
  | zero => exact ⟨rfl, rfl⟩
  | succ n ih =>
    obtain ⟨hrun, hstate⟩ := advance_inRun hnames options r s runId
    simp only [advanceTimes, hrun, hstate]
    exact ih _ _

/-- **A complete run under another name.** -/
theorem complete_inRun (hnames : TakeNames processors b) (symbol : String) (runId other : RunId)
    (s : σ) : ((Run.begin symbol other b options).complete processors b options s).1 =
      ((Run.begin symbol runId b options).complete processors b options s).1.inRun other :=
  (advanceTimes_inRun hnames _ (Run.begin symbol runId b options) s other).1

/-- A run has its own name written into it. -/
theorem complete_named (hnames : TakeNames processors b) (symbol : String) (runId : RunId) (s : σ) :
    ((Run.begin symbol runId b options).complete processors b options s).1.inRun runId =
      ((Run.begin symbol runId b options).complete processors b options s).1 :=
  (complete_inRun hnames symbol runId runId s).symm

end Run

/-! ### Reports -/

namespace Pipeline

variable {b : Book} {r : Run}

theorem result_inRun (r : Run) (runId : RunId) :
    (r.inRun runId).result = { r.result with runId } := by
  have hlast := Run.getLast?_inRun r.steps runId
  have hresult (ending : Ending) :
      (r.inRun runId).resultOf ending = { r.resultOf ending with runId } := by
    unfold Run.resultOf
    rw [show (r.inRun runId).steps.getLast? = _ from hlast]
    cases r.steps.getLast? <;> cases ending <;> rfl
  exact hresult _

/-- The contexts of a run have the figures that they have under another name. -/
theorem figures_of_named {runId : RunId} (hr : r.inRun runId = r) (other : RunId) :
    ∀ step ∈ r.steps, ∀ c, step.context = some c → c.SameFigures (c.inRun other) := by
  intro step hstep c hc
  have hsteps : r.steps.map (StepResult.inRun runId) = r.steps := congrArg Run.steps hr
  have hself : step.inRun runId = step := by
    have hall : r.steps.map (StepResult.inRun runId) = r.steps.map id := by
      rw [hsteps, List.map_id]
    exact List.map_eq_map_iff.mp hall step hstep
  have hcontext : step.context.map (Context.inRun runId) = step.context :=
    congrArg StepResult.context hself
  rw [hc] at hcontext
  exact Context.sameFigures_inRun (Option.some.inj hcontext) other

/-- The contexts of steps, each under its timeframe. -/
def contextsOf (steps : List StepResult) (m : ByTimeframe Context) : ByTimeframe Context :=
  steps.foldl (fun m step =>
    match step.context with
    | some c => m.set step.timeframe c
    | none => m) m

theorem contextsOf_inRun {other : RunId} {steps : List StepResult}
    (h : ∀ step ∈ steps, ∀ c, step.context = some c → c.SameFigures (c.inRun other))
    {m m' : ByTimeframe Context} (hm : ∀ tf, Option.Rel Context.SameFigures (m tf) (m' tf))
    (tf : Timeframe) : Option.Rel Context.SameFigures (contextsOf steps m tf)
      (contextsOf (steps.map (StepResult.inRun other)) m' tf) := by
  induction steps generalizing m m' with
  | nil => exact hm tf
  | cons step rest ih =>
    have hrest := fun st hst => h st (List.mem_cons_of_mem _ hst)
    unfold contextsOf
    rw [List.map_cons, List.foldl_cons, List.foldl_cons]
    cases hc : step.context with
    | none =>
      have hc' : (step.inRun other).context = none := by rw [StepResult.inRun, hc]; rfl
      simp only [hc']
      exact ih hrest hm
    | some c =>
      have hc' : (step.inRun other).context = some (c.inRun other) := by
        rw [StepResult.inRun, hc]
        rfl
      simp only [hc']
      refine ih hrest fun t => ?_
      have htf : (step.inRun other).timeframe = step.timeframe := rfl
      unfold ByTimeframe.set
      rw [htf]
      split
      · exact .some (h step List.mem_cons_self c hc)
      · exact hm t

/-- What a choice is made from: the side, the context of the last step, and those of all steps. -/
theorem selectionInput?_eq (r : Run) (result : SymbolResult) : selectionInput? r result =
    (if result.isReady then result.side else none).bind fun side =>
      r.steps.getLast?.bind fun last => last.context.map fun base =>
        ⟨side, base, contextsOf r.steps ByTimeframe.empty⟩ := by
  have hbody (side : Side) : (do
        let last ← r.steps.getLast?
        let base ← last.context
        return (⟨side, base, contextsOf r.steps ByTimeframe.empty⟩ : SelectionInput)) =
      r.steps.getLast?.bind fun last => last.context.map fun base =>
        ⟨side, base, contextsOf r.steps ByTimeframe.empty⟩ := by
    cases r.steps.getLast? with
    | none => rfl
    | some last => cases hc : last.context <;> simp [hc]
  unfold selectionInput?
  cases result.isReady with
  | false => rfl
  | true =>
    cases result.side with
    | none => rfl
    | some side => exact hbody side

/-- **The choice does not depend on the name of the run.** -/
theorem decision_inRun (hb : b.registry.HeedsFigures) {runId : RunId} (hr : r.inRun runId = r)
    (other : RunId) :
    (selectionInput? (r.inRun other) (r.inRun other).result).map b.select =
      (selectionInput? r r.result).map b.select := by
  have hfigures := figures_of_named hr other
  rw [selectionInput?_eq, selectionInput?_eq, result_inRun,
    show (r.inRun other).steps.getLast? = _ from Run.getLast?_inRun r.steps other]
  show Option.map b.select ((if r.result.isReady then r.result.side else none).bind _) = _
  cases (if r.result.isReady then r.result.side else none) with
  | none => rfl
  | some side =>
    -- the choice is made from the context of the last step and those of all steps
    cases hlast : r.steps.getLast? with
    | none => rfl
    | some last =>
      show Option.map b.select (Option.map _ (last.context.map (Context.inRun other))) =
        Option.map b.select (Option.map _ last.context)
      cases hbase : last.context with
      | none => rfl
      | some base =>
        have hsame : SelectionInput.SameFigures
            ⟨side, base, contextsOf r.steps ByTimeframe.empty⟩
            ⟨side, base.inRun other,
              contextsOf (r.steps.map (StepResult.inRun other)) ByTimeframe.empty⟩ :=
          ⟨rfl, hfigures last (List.mem_of_getLast? hlast) base hbase,
            contextsOf_inRun hfigures fun _ => .none⟩
        exact congrArg some (Book.select_figures hb hsame).symm

/-- **The report of a run under another name.** -/
theorem report_inRun (hb : b.registry.HeedsFigures) {runId : RunId} (hr : r.inRun runId = r)
    (other : RunId) : report b (r.inRun other) = (report b r).map (SignalReport.inRun other) := by
  unfold report
  dsimp only
  rw [decision_inRun hb hr other, result_inRun]
  cases (selectionInput? r r.result).map b.select with
  | none => rfl
  | some d =>
    simp only [Option.bind_some]
    cases d.crash <;> rfl

/-- **A name is no more than a name**: the report of a symbol under another name is the same report,
with the other name written into it. -/
theorem runSymbol_inRun {σ : Type} {processors : ByTimeframe (Processor σ)}
    (hb : b.registry.HeedsFigures) (hnames : TakeNames processors b) (options : RunOptions)
    (symbol : String) (runId other : RunId) (s : σ) :
    (runSymbol processors b options other symbol s).1 =
      (runSymbol processors b options runId symbol s).1.map (SignalReport.inRun other) := by
  show report b ((Run.begin symbol other b options).complete processors b options s).1 =
    (report b ((Run.begin symbol runId b options).complete processors b options s).1).map _
  rw [Run.complete_inRun hnames symbol runId other s]
  exact report_inRun hb (Run.complete_named hnames symbol runId s) other

end Pipeline

end TopDown
