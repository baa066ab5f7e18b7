import TopDown.Pipeline
import TopDown.Proofs.Descent
import TopDown.Proofs.Gate

/-!
# What a ready report promises

A report that says a symbol is ready is the one on which somebody trades. This file follows it back
to its grounds. Every timeframe of the run has a valid step for the side of the report, and every
such step is backed by bars, gates and rules as `TopDown.Backing` tells; this is
`TopDown.Run.Attempts.backed`, by induction on the steps of the run.

The choice of the timeframe to enter on comes last: `TopDown.Pipeline.report_of_ready` says that it
is made for every run that is ready, and `TopDown.Pipeline.report_of_not_ready` that it is made for
no other. `TopDown.Pipeline.ready_report` puts the halves together.
-/

namespace TopDown

variable {σ : Type}

namespace Run

/-! ### The steps of a run -/

section Support

variable (source : BarSource σ) (build : ContextBuilder) (symbol : String) (view : RunView)
  (w : World σ) (steps : List StepResult) (side : Side) (tf : Timeframe)

/-- **The timeframe supports the side**: among the steps there is a valid one on that timeframe and
for that side, it is backed in the state that the steps before it have left, and the kill switch is
still the one with which the run began. -/
def Supports : Prop :=
  ∃ earlier step later before after, steps = earlier ++ step :: later ∧ step.timeframe = tf ∧
    step.status = .valid ∧ step.side = side ∧
    Attempts (ruleProcessors source build) symbol view (earlier.map StepResult.timeframe) w earlier
      before ∧
    before.switch = w.switch ∧
    Nonempty (Backing source build symbol
      { view with prior := view.prior ++ earlier.map StepResult.known } tf before step after)

end Support

variable {source : BarSource σ} {build : ContextBuilder} {symbol : String}

/-- A valid answer of a processor is backed. -/
theorem Answers.backed {view : RunView} {tf : Timeframe} {w w' : World σ} {step : StepResult}
    (h : Answers (ruleProcessors source build) symbol view tf w step w')
    (hv : step.isValid = true) : Nonempty (Backing source build symbol view tf w step w') := by
  cases h with
  | answered hp hok =>
    cases hp
    exact takeStep_valid hok hv
  | broken _ _ => cases hv
  | unattended _ => cases hv

/-- **Where all steps are valid and for one side, every timeframe supports it.** -/
theorem Attempts.backed {view : RunView} {tfs : List Timeframe} {w w' : World σ}
    {steps : List StepResult} {side : Side}
    (h : Attempts (ruleProcessors source build) symbol view tfs w steps w')
    (hall : ∀ step ∈ steps, step.isValid = true ∧ step.side = side) :
    ∀ tf ∈ tfs, Supports source build symbol view w steps side tf := by
  induction h with
  | nil =>
    intro tf htf
    cases htf
  | @cons view tf rest w w₁ w₂ step steps hfirst hrest ih =>
    obtain ⟨hv, hside⟩ := hall step List.mem_cons_self
    obtain ⟨hback⟩ := hfirst.backed hv
    have hlabel : step.timeframe = tf := hback.timeframe_eq
    intro t ht
    rcases List.mem_cons.mp ht with rfl | ht
    · -- the first step
      refine ⟨[], step, steps, w, w₁, rfl, hlabel, isValid_iff.mp hv, hside, .nil, rfl, ?_⟩
      simpa using ⟨hback⟩
    · -- a later one, which knows the first
      obtain ⟨earlier, st, later, before, after, rfl, htf, hvalid, hst, hatt, hswitch, hb⟩ :=
        ih (fun st hst => hall st (List.mem_cons_of_mem _ hst)) t ht
      refine ⟨step :: earlier, st, later, before, after, rfl, htf, hvalid, hst, ?_, ?_, ?_⟩
      · rw [List.map_cons, hlabel]
        exact .cons hfirst hatt
      · rw [hswitch, hback.switch_eq]
      · simpa [viewAfter, List.append_assoc] using hb

/-- Support comes from a step of the run. -/
theorem Supports.exists_step {view : RunView} {w : World σ} {steps : List StepResult} {side : Side}
    {tf : Timeframe} (h : Supports source build symbol view w steps side tf) :
    ∃ step ∈ steps, step.timeframe = tf ∧ step.status = .valid ∧ step.side = side := by
  obtain ⟨earlier, step, later, -, -, rfl, htf, hvalid, hside, -⟩ := h
  exact ⟨step, by simp, htf, hvalid, hside⟩

/-- In a run by the rules, a valid step has a context. -/
theorem Attempts.kept {view : RunView} {tfs : List Timeframe} {w w' : World σ}
    {steps : List StepResult}
    (h : Attempts (ruleProcessors source build) symbol view tfs w steps w') :
    ∀ step ∈ steps, step.isValid = true → ∃ c, step.context = some c := by
  induction h with
  | nil =>
    intro step hstep
    cases hstep
  | cons hfirst _ ih =>
    intro step hstep hv
    rcases List.mem_cons.mp hstep with rfl | hstep
    · obtain ⟨hback⟩ := hfirst.backed hv
      exact ⟨_, hback.kept⟩
    · exact ih step hstep hv

end Run

/-! ### Timeframes to enter on -/

/-- A run that starts above five minutes passes every timeframe that can be chosen. -/
theorem Choice.timeframe_mem_sequence {choice : Choice} {start tf : Timeframe}
    (hstart : start.isContext = true) (h : choice.timeframe? = some tf) : tf ∈ start.sequence := by
  cases choice with
  | none => cases h
  | m15 | m5 | m1 =>
    cases h
    cases start <;> first | decide | cases hstart

theorem Choice.timeframe_eq_none_iff {choice : Choice} :
    choice.timeframe? = Option.none ↔ choice = .none := by
  cases choice <;> simp [Choice.timeframe?]

namespace Pipeline

/-! ### The choice -/

/-- **The report of a run that is ready** has a choice, and enters on the timeframe of that choice. -/
theorem report_of_ready {b : Book} {r : Run} {report : SignalReport} {last : StepResult}
    {c : Context} {side : Side} (h : Pipeline.report b r = .ok report)
    (hr : r.result.status = .ready) (hside : r.result.side = some side)
    (hlast : r.steps.getLast? = some last) (hc : last.context = some c) :
    ∃ decision, report.decision = some decision ∧
      report.result = { r.result with execution := decision.choice.timeframe? } ∧
      report.steps = r.steps := by
  have hready : r.result.isReady = true := by simp [SymbolResult.isReady, hr]
  obtain ⟨input, hinput⟩ : ∃ input, selectionInput? r r.result = some input :=
    ⟨_, by simp [selectionInput?, hready, hside, hlast, hc]; rfl⟩
  unfold Pipeline.report at h
  simp only [hinput, Option.map_some] at h
  split at h
  · cases h
  · cases h
    exact ⟨b.select input, rfl, rfl, rfl⟩

/-- The report of a run that is not ready has no choice, and the result of the run. -/
theorem report_of_not_ready {b : Book} {r : Run} {report : SignalReport}
    (h : Pipeline.report b r = .ok report) (hr : r.result.status ≠ .ready) :
    report.decision = none ∧ report.result = r.result := by
  have hready : r.result.isReady = false := by simp [SymbolResult.isReady, hr]
  have hinput : selectionInput? r r.result = none := by simp [selectionInput?, hready]
  unfold Pipeline.report at h
  simp only [hinput, Option.map_none] at h
  cases h
  exact ⟨rfl, rfl⟩

/-- **A ready report is sound**: its side is one to trade on, every timeframe of the run supports it,
and the timeframe to enter on, if there is one, is among them. A report that is not ready carries
nothing to trade on. -/
theorem ready_report {source : BarSource σ} {build : ContextBuilder} {b : Book}
    {options : RunOptions} {runId : RunId} {symbol : String} {w : World σ} {report : SignalReport}
    (h : (runSymbol (ruleProcessors source build) b options runId symbol w).1 = .ok report) :
    (report.result.status = .ready → ∃ side decision,
      (side = .long ∨ side = .short) ∧ report.result.side = some side ∧
      (∀ tf ∈ (options.start.getD b.start).sequence, Run.Supports source build symbol
        (Run.firstView b options runId) w report.steps side tf) ∧
      report.decision = some decision ∧
      (report.result.execution = none ↔ decision.choice = .none) ∧
      ((options.start.getD b.start).isContext = true → ∀ tf, report.result.execution = some tf →
        ∃ step ∈ report.steps, step.timeframe = tf ∧ step.status = .valid ∧ step.side = side)) ∧
    (report.result.status ≠ .ready →
      report.decision = none ∧ report.result.execution = none ∧ report.result.side = none) := by
  unfold runSymbol at h
  rcases hrun : (Run.begin symbol runId b options).complete (ruleProcessors source build) b options w
    with ⟨r, records, w'⟩
  simp only [hrun] at h
  have hfin := Run.complete_finished hrun
  by_cases hr : r.result.status = .ready
  · obtain ⟨hatt, last, hlast, hne, hall, -, hside, -, -⟩ := hfin.of_ready hr
    have hmem := List.mem_of_getLast? hlast
    obtain ⟨c, hc⟩ := hatt.kept last hmem (hall last hmem).1
    obtain ⟨decision, hdecision, hresult, hsteps⟩ := report_of_ready h hr hside hlast hc
    have hsupport := hatt.backed hall
    rw [hresult, hsteps]
    refine ⟨fun _ => ⟨last.side, decision, ?_, hside, hsupport, hdecision,
      Choice.timeframe_eq_none_iff, ?_⟩, fun hn => absurd hr hn⟩
    · cases hs : last.side with
      | long => exact .inl rfl
      | short => exact .inr rfl
      | none => exact absurd hs hne
    · intro hstart tf htf
      exact (hsupport tf (Choice.timeframe_mem_sequence hstart htf)).exists_step
  · obtain ⟨hdecision, hresult⟩ := report_of_not_ready h hr
    obtain ⟨hexec, hside⟩ := hfin.of_not_ready hr
    rw [hresult]
    exact ⟨fun hc => absurd hc hr, fun _ => ⟨hdecision, hexec, hside⟩⟩

/-! ### A run that is ready -/

/-- A book with one rule, which always holds. -/
def steadyBook : Book where
  registry := Registry.empty.register "holds" fun _ => .decided true .null none
  nodes := #[.leaf "holds" 0 none]
  named := []
  blocks := fun _ => some ⟨[0], [], 1, 0⟩
  selection := ⟨.flat ⟨[0], [], []⟩, [], false, [], .m5⟩
  start := .h4

/-- A source that knows one old bar. -/
def steadySource : BarSource Unit where
  bars := fun symbol tf _ s =>
    (.ok [⟨symbol, tf, ⟨0, 0⟩, 1.0, 1.0, 1.0, 1.0, 1.0, []⟩], s)
  last := fun _ _ s => (.ok none, s)

/-- The report of a run by that book and that source, a day after the bar opened. -/
def steadyReport : Except Crash SignalReport :=
  (runSymbol
    (ruleProcessors steadySource fun symbol tf _ _ _ => .ok (Context.ofFacts symbol tf []))
    steadyBook { now := ⟨86400, 0⟩ } "run" "BTCUSDT" ⟨.clear, ()⟩).1

/-- The report is ready, to enter on fifteen minutes. -/
theorem ready_report_steady : ∃ report, steadyReport = .ok report ∧
    report.result.status = .ready ∧ ∃ side decision, (side = .long ∨ side = .short) ∧
      report.decision = some decision ∧ ∃ step ∈ report.steps,
        step.timeframe = .m15 ∧ step.status = .valid ∧ step.side = side := by
  have hready : (match steadyReport with
      | .ok report => decide (report.result.status = .ready ∧ report.result.execution = some .m15)
      | .error _ => false) = true := by decide +kernel
  cases hrun : steadyReport with
  | error crash =>
    rw [hrun] at hready
    cases hready
  | ok report =>
    rw [hrun] at hready
    obtain ⟨hstatus, hexec⟩ := of_decide_eq_true hready
    obtain ⟨side, decision, hside, -, -, hdecision, -, hentry⟩ := (ready_report hrun).1 hstatus
    exact ⟨report, rfl, hstatus, side, decision, hside, hdecision, hentry rfl .m15 hexec⟩

end Pipeline

end TopDown
