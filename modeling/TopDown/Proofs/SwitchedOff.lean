import TopDown.Proofs.Canonical
import TopDown.Proofs.Desk
import TopDown.Proofs.Ready
import TopDown.Settings
import TopDown.Symbols

/-!
# What the settings switch off

The settings list symbols and timeframes that are switched off from the start, and the symbols of a
batch come from another text. Both may be written in many ways. They are read alike, by
`TopDown.normalSymbol`, and so an entry of the settings concerns a symbol of the batch however the two
are spelt (`TopDown.Settings.exists_switch`, `TopDown.mem_of_parseSymbols`).

Whatever happens then, nothing brings the symbol back on that timeframe. A run that heeds the switch
never has a valid step that is switched off, and it is not ready unless all its timeframes have valid
steps (`TopDown.Run.Heeds`). One step of a run keeps this (`TopDown.Run.Heeds.advance`), and so do whole
runs, batches and histories at a desk. `TopDown.Settings.switches_bind` is the whole way from the text
of the settings to the reports.
-/

namespace TopDown

variable {σ : Type}

/-! ### From the settings to the switch -/

namespace Settings

/-- An entry that is read has a colon; the timeframe stands behind it, and the symbol before it. -/
theorem parseSwitch_eq_ok {entry : String} {switch : String × Timeframe}
    (h : parseSwitch entry = .ok switch) :
    ∃ before after tf, Text.cutFirst ':' entry = some (before, after) ∧
      Timeframe.parse? after = some tf ∧ switch = (normalSymbol before, tf) := by
  rw [parseSwitch] at h
  cases hcut : Text.cutFirst ':' entry with
  | none =>
    rw [hcut] at h
    cases h
  | some parts =>
    obtain ⟨before, after⟩ := parts
    rw [hcut] at h
    dsimp only at h
    by_cases hempty : (normalSymbol before).isEmpty = true
    · rw [if_pos hempty] at h
      cases h
    · rw [if_neg hempty] at h
      cases htf : Timeframe.parse? after with
      | none =>
        rw [htf] at h
        cases h
      | some tf =>
        rw [htf] at h
        exact ⟨before, after, tf, rfl, htf, (Except.ok.inj h).symm⟩

theorem blame_eq_ok {α : Type} {area key : String} {x : Except Refusal α} {a : α} :
    blame area key x = .ok a ↔ x = .ok a := by
  cases x with
  | ok b => simp [blame]
  | error r => simp [blame]

/-- **Every entry is a switch**: once the settings are read, the symbol of each entry is off on its
timeframe. -/
theorem exists_switch {s : SettingsSource} {settings : Settings} {entry : String}
    (h : ofSource s = .ok settings) (hentry : entry ∈ s.list "kill_switch" "off") :
    ∃ before after tf, Text.cutFirst ':' entry = some (before, after) ∧
      Timeframe.parse? after = some tf ∧ (normalSymbol before, tf) ∈ settings.off := by
  obtain ⟨workers, -, h⟩ := bind_eq_ok.mp h
  obtain ⟨start, -, h⟩ := bind_eq_ok.mp h
  obtain ⟨off, hoff, h⟩ := bind_eq_ok.mp h
  cases h
  have hentries := mapM_eq_ok.mp (blame_eq_ok.mp hoff)
  have hmem := List.mem_map_of_mem (f := parseSwitch) hentry
  rw [hentries] at hmem
  obtain ⟨switch, hswitch, hparse⟩ := List.mem_map.mp hmem
  obtain ⟨before, after, tf, hcut, htf, rfl⟩ := parseSwitch_eq_ok hparse.symm
  exact ⟨before, after, tf, hcut, htf, hswitch⟩

end Settings

/-- What is off at the start is what has been listed. -/
theorem KillSwitch.off_ofSwitches (switches : List (String × Timeframe)) :
    (ofSwitches switches).off = switches.reverse := by
  suffices h : ∀ k : KillSwitch, (switches.foldl (fun k s => k.switchOff s.1 s.2) k).off =
      switches.reverse ++ k.off from (h clear).trans (List.append_nil _)
  induction switches with
  | nil => exact fun k => rfl
  | cons switch rest ih =>
    intro k
    rw [List.foldl_cons, ih, List.reverse_cons, List.append_assoc]
    rfl

theorem mem_of_parseSymbols {text token : String} {symbols : List String}
    (h : parseSymbols text = .ok symbols) (htoken : token ∈ Text.pieces ',' text) :
    normalSymbol token ∈ symbols := by
  rw [(parseSymbols_eq_ok (Text.cutAt_pieces ',' text) h).2]
  exact List.mem_map_of_mem htoken

/-! ### Steps -/

section Steps

variable {source : BarSource σ} {build : ContextBuilder} {tf : Timeframe} {symbol : String}
  {w : World σ}

/-- No step switches anything on or off for good. -/
theorem takeStep_off (source : BarSource σ) (build : ContextBuilder) (tf : Timeframe)
    (symbol : String) (view : RunView) (w : World σ) :
    (takeStep source build tf symbol view w).2.switch.off = w.switch.off := by
  rcases takeStep_switch_cases source build tf symbol view w with h | ⟨t, h⟩
  · rw [h]
  · exact congrArg (fun taken => taken.2.switch.off) h

/-- **A valid step is not switched off**, if its run heeds the switch. -/
theorem not_off_of_valid (view : RunView) (hforce : view.flags.forceRun = false)
    (hv : (Run.stepOf tf (takeStep source build tf symbol view w).1).isValid = true) :
    (Run.stepOf tf (takeStep source build tf symbol view w).1).timeframe = tf ∧
      (symbol, tf) ∉ w.switch.off := by
  obtain ⟨backing⟩ := Desk.backing_of_valid view hv
  have hallows := backing.allowed.resolve_left (by rw [hforce]; decide)
  refine ⟨backing.timeframe_eq, fun hoff => ?_⟩
  rw [KillSwitch.allows, List.contains_iff_mem.mpr hoff] at hallows
  cases hallows

end Steps

/-! ### Runs -/

namespace Run

/-- **The run heeds what is off**: none of its valid steps is switched off. It leaves no timeframe
behind without a valid step, and is not ready while some are still to come. -/
structure Heeds (off : List (String × Timeframe)) (r : Run) : Prop where
  /-- No valid step is switched off. -/
  steps : ∀ step ∈ r.steps, step.isValid = true → (r.symbol, step.timeframe) ∉ off
  /-- Each timeframe is still to come or has a valid step. -/
  passed : ∀ tf ∈ r.start.sequence, tf ∈ r.pending ∨
    ∃ step ∈ r.steps, step.timeframe = tf ∧ step.isValid = true
  /-- A run that is ready has none to come. -/
  ready : r.result.status = .ready → r.pending = []

variable {off : List (String × Timeframe)} {r : Run} {tf : Timeframe}

/-- **A run is not ready** if its symbol is switched off on one of its timeframes. -/
theorem Heeds.not_ready (h : r.Heeds off) (hoff : (r.symbol, tf) ∈ off)
    (htf : tf ∈ r.start.sequence) : r.result.status ≠ .ready := by
  intro hready
  rcases h.passed tf htf with hpending | ⟨step, hstep, rfl, hv⟩
  · rw [h.ready hready] at hpending
    cases hpending
  · exact h.steps step hstep hv hoff

theorem heeds_begin (off : List (String × Timeframe)) (symbol : String) (runId : RunId) (b : Book)
    (options : RunOptions) : (Run.begin symbol runId b options).Heeds off where
  steps _ hstep := absurd hstep List.not_mem_nil
  passed _ htf := .inl htf
  ready h := nomatch h

/-- One more step. -/
theorem Heeds.take {rest : List Timeframe} {step : StepResult} (h : r.Heeds off)
    (hpending : r.pending = tf :: rest)
    (hstep : step.isValid = true → step.timeframe = tf ∧ (r.symbol, tf) ∉ off) :
    (r.take tf rest step).Heeds off := by
  have hsteps : ∀ st ∈ r.steps ++ [step], st.isValid = true → (r.symbol, st.timeframe) ∉ off := by
    intro st hst hv
    rcases List.mem_append.mp hst with hst | hst
    · exact h.steps st hst hv
    · obtain rfl := List.mem_singleton.mp hst
      obtain ⟨htf, hoff⟩ := hstep hv
      rw [htf]
      exact hoff
  have hpassed : ∀ t ∈ r.start.sequence, t ∈ r.pending ∨
      ∃ st ∈ r.steps ++ [step], st.timeframe = t ∧ st.isValid = true := by
    intro t ht
    refine (h.passed t ht).imp_right ?_
    rintro ⟨st, hst, hlabel, hv⟩
    exact ⟨st, List.mem_append_left _ hst, hlabel, hv⟩
  unfold Run.take
  split
  · -- the step is not valid
    exact ⟨hsteps, hpassed, fun hready => absurd hready (ofStep_ne_ready _)⟩
  · rename_i hv
    rw [Bool.not_eq_true', Bool.not_eq_false] at hv
    split
    · -- it speaks for another side
      exact ⟨hsteps, hpassed, fun hready => nomatch hready⟩
    · -- the run goes on
      refine ⟨hsteps, fun t ht => ?_, fun hready => ?_⟩
      · rcases hpassed t ht with ht | ht
        · rw [hpending] at ht
          rcases List.mem_cons.mp ht with rfl | ht
          · exact .inr ⟨step, List.mem_append_right _ List.mem_cons_self, (hstep hv).1, hv⟩
          · exact .inl ht
        · exact .inr ht
      · -- it is ready only at its last timeframe
        cases rest with
        | nil => rfl
        | cons next later => exact nomatch hready

section Advance

variable {source : BarSource σ} {build : ContextBuilder} {b : Book} {options : RunOptions}
  {w : World σ}

/-- No step of a run switches anything on or off for good. -/
theorem advance_off (source : BarSource σ) (build : ContextBuilder) (b : Book) (options : RunOptions)
    (r : Run) (w : World σ) :
    (r.advance (ruleProcessors source build) b options w).2.2.switch.off = w.switch.off := by
  unfold Run.advance
  split
  · rename_i tf _ _ _
    have hprocess : ruleProcessors source build tf = some (takeStep source build tf) := rfl
    rw [attempt_eq hprocess]
    exact takeStep_off source build tf r.symbol (r.view b options) w
  · rfl

/-- **One step of a run**, from a state in which more may be off. -/
theorem Heeds.advance (h : r.Heeds off) (hw : off ⊆ w.switch.off)
    (hforce : options.flags.forceRun = false) :
    (r.advance (ruleProcessors source build) b options w).1.Heeds off := by
  unfold Run.advance
  split
  · rename_i tf rest _ hpending
    have hprocess : ruleProcessors source build tf = some (takeStep source build tf) := rfl
    rw [attempt_eq hprocess]
    refine h.take hpending fun hv => ?_
    obtain ⟨htf, hoff⟩ := not_off_of_valid (r.view b options) hforce hv
    exact ⟨htf, fun hmem => hoff (hw hmem)⟩
  · exact h

/-- **Any number of steps.** -/
theorem Heeds.advanceTimes (h : r.Heeds off) (source : BarSource σ) (build : ContextBuilder)
    (b : Book) (hw : off ⊆ w.switch.off) (hforce : options.flags.forceRun = false) (n : Nat) :
    (r.advanceTimes (ruleProcessors source build) b options n w).1.Heeds off ∧
      off ⊆ (r.advanceTimes (ruleProcessors source build) b options n w).2.2.switch.off := by
  induction n generalizing r w with
  | zero => exact ⟨h, hw⟩
  | succ n ih =>
    have hoff := advance_off source build b options r w
    exact ih (h.advance hw hforce) (hoff.symm ▸ hw)

end Advance

end Run

/-! ### Histories at a desk -/

namespace Desk

/-- **The desk heeds what is off**: it is still off, and the runs heed it that heed the switch. -/
structure Heeds (off : List (String × Timeframe)) (d : Desk σ) : Prop where
  /-- Nothing has been switched on. -/
  still : off ⊆ d.world.switch.off
  /-- The runs heed it. -/
  runs : ∀ f ∈ d.flights, f.options.flags.forceRun = false → f.run.Heeds off

variable {off : List (String × Timeframe)} {d : Desk σ}

/-- A run at the desk takes its turn. -/
theorem Heeds.turn (h : d.Heeds off) (source : BarSource σ) (build : ContextBuilder) (place : Nat) :
    (d.turn source build place).Heeds off := by
  unfold Desk.turn
  cases hf : d.flights[place]? with
  | none => exact h
  | some f =>
    refine ⟨?_, fun g hg hforce => ?_⟩
    · dsimp only
      rw [Run.advance_off]
      exact h.still
    · rcases List.mem_or_eq_of_mem_set hg with hg | rfl
      · exact h.runs g hg hforce
      · exact (h.runs f (List.mem_of_getElem? hf) hforce).advance h.still hforce

/-- **One move.** -/
theorem Heeds.move (h : d.Heeds off) (source : BarSource σ) (build : ContextBuilder) (m : Move) :
    (d.move source build m).Heeds off := by
  cases m with
  | call c => exact ⟨List.Subset.trans h.still (KillSwitch.off_obey _ c), h.runs⟩
  | launch symbol runId book options =>
    refine ⟨h.still, fun f hf hforce => ?_⟩
    rcases List.mem_append.mp hf with hf | hf
    · exact h.runs f hf hforce
    · obtain rfl := List.mem_singleton.mp hf
      exact Run.heeds_begin off symbol runId book options
  | turn place => exact h.turn source build place

/-- **A whole history.** -/
theorem Heeds.play (h : d.Heeds off) (source : BarSource σ) (build : ContextBuilder)
    (moves : List Move) : (d.play source build moves).Heeds off := by
  induction moves generalizing d with
  | nil => exact h
  | cons m rest ih => exact ih (h.move source build m)

end Desk

/-! ### Batches -/

namespace Pipeline

variable {off : List (String × Timeframe)}

/-- **The report heeds what is off**: no valid step of it is switched off, and it is not ready if one
of its timeframes is. -/
structure Heeds (off : List (String × Timeframe)) (report : SignalReport) : Prop where
  /-- No valid step is switched off. -/
  steps : ∀ step ∈ report.steps, step.isValid = true →
    (report.result.symbol, step.timeframe) ∉ off
  /-- It is not ready if one of its timeframes is off. -/
  not_ready : ∀ tf ∈ report.result.start.sequence, (report.result.symbol, tf) ∈ off →
    report.result.status ≠ .ready

section Reports

variable {source : BarSource σ} {build : ContextBuilder} {b : Book} {options : RunOptions}
  {w : World σ}

/-- The report of a run that heeds what is off. -/
theorem heeds_report {r : Run} {report : SignalReport} (h : r.Heeds off)
    (hreport : Pipeline.report b r = .ok report) :
    Heeds off report ∧ report.result.start = r.start := by
  obtain ⟨decision, hresult, -, hsteps⟩ := report_eq_ok hreport
  obtain ⟨hstatus, hstart⟩ := withChoice_status r.result decision
  have hsymbol : report.result.symbol = r.symbol := by
    rw [hresult, (withChoice_labels _ _).1]
    exact (resultOf_labels r _).1
  have hfirst : report.result.start = r.start := by
    rw [hresult, hstart]
    exact resultOf_start r _
  refine ⟨⟨?_, ?_⟩, hfirst⟩
  · rw [hsteps, hsymbol]
    exact h.steps
  · intro tf htf hoff
    rw [hfirst] at htf
    rw [hsymbol] at hoff
    rw [hresult, hstatus]
    exact h.not_ready hoff htf

/-- The report of a symbol, and the state in which it leaves the others. -/
theorem heeds_runSymbol (source : BarSource σ) (build : ContextBuilder) (b : Book) (runId : RunId)
    (symbol : String) (hw : off ⊆ w.switch.off) (hforce : options.flags.forceRun = false) :
    (∀ report,
      (runSymbol (ruleProcessors source build) b options runId symbol w).1 = .ok report →
        Heeds off report ∧ report.result.start = options.start.getD b.start) ∧
    off ⊆ (runSymbol (ruleProcessors source build) b options runId symbol w).2.2.switch.off := by
  obtain ⟨hheeds, hleft⟩ := (Run.heeds_begin off symbol runId b options).advanceTimes source build b
    hw hforce (Run.begin symbol runId b options).pending.length
  refine ⟨fun report hreport => ?_, hleft⟩
  obtain ⟨hreport, hstart⟩ := heeds_report hheeds hreport
  have hfinished : Run.Finished (ruleProcessors source build) b options symbol runId
      (options.start.getD b.start) w _ _ := Run.complete_finished rfl
  exact ⟨hreport, hstart.trans hfinished.same.2.2⟩

/-- **All reports of a batch** whose symbols run one after the other. -/
theorem heeds_runFrom {name : Nat → RunId} {place : Nat} {symbols : List String}
    {reports : List SignalReport} (hw : off ⊆ w.switch.off) (hforce : options.flags.forceRun = false)
    (h : (runFrom (ruleProcessors source build) b options name place symbols w).1 = .ok reports) :
    ∀ report ∈ reports, Heeds off report ∧ report.result.start = options.start.getD b.start := by
  induction symbols generalizing place w reports with
  | nil =>
    cases h
    exact List.forall_mem_nil _
  | cons symbol rest ih =>
    obtain ⟨hreport, hleft⟩ := heeds_runSymbol source build b (name place) symbol hw hforce
    change (do
      let first ← (runSymbol (ruleProcessors source build) b options (name place) symbol w).1
      let others ← (runFrom (ruleProcessors source build) b options name (place + 1) rest
        (runSymbol (ruleProcessors source build) b options (name place) symbol w).2.2).1
      return first :: others) = .ok reports at h
    obtain ⟨first, hfirst, h⟩ := bind_eq_ok.mp h
    obtain ⟨others, hothers, h⟩ := bind_eq_ok.mp h
    cases h
    exact List.forall_mem_cons.mpr ⟨hreport first hfirst, ih hleft hothers⟩

end Reports

end Pipeline

/-! ### The whole way -/

/-- **No spelling escapes the switch.** Once the settings are read, each entry of their list has a
colon, with a timeframe behind it. A token of the symbols of a batch that gives the same symbol as what
stands before the colon gives a symbol of the batch, and this symbol is switched off on that timeframe:
whatever happens at a desk, and also where the symbols run one after the other, no run of it that heeds
the switch has a valid step there, nor is it ready if the timeframe is one of its own. -/
theorem Settings.switches_bind (source : BarSource σ) (build : ContextBuilder) (x : σ)
    {s : SettingsSource} {settings : Settings} {entry : String} (h : ofSource s = .ok settings)
    (hentry : entry ∈ s.list "kill_switch" "off") :
    ∃ before after tf, Text.cutFirst ':' entry = some (before, after) ∧
      Timeframe.parse? after = some tf ∧
      ∀ text token symbols, parseSymbols text = .ok symbols → token ∈ Text.pieces ',' text →
        normalSymbol token = normalSymbol before →
        normalSymbol before ∈ symbols ∧
        (∀ moves,
          ∀ f ∈ (Desk.play source build ⟨⟨.ofSwitches settings.off, x⟩, []⟩ moves).flights,
            f.run.symbol = normalSymbol before → f.options.flags.forceRun = false →
            (∀ step ∈ f.run.steps, step.timeframe = tf → step.status ≠ .valid) ∧
            (tf ∈ f.run.start.sequence → f.run.result.status ≠ .ready)) ∧
        ∀ b options asked name reports, options.flags.forceRun = false →
          (Pipeline.runAll (ruleProcessors source build) b options asked name symbols
            ⟨.ofSwitches settings.off, x⟩).1 = .ok reports →
          ∀ report ∈ reports, report.result.symbol = normalSymbol before →
            (∀ step ∈ report.steps, step.timeframe = tf → step.status ≠ .valid) ∧
            (tf ∈ (options.start.getD b.start).sequence → report.result.status ≠ .ready) := by
  obtain ⟨before, after, tf, hcut, htf, hoff⟩ := exists_switch h hentry
  have hstart : settings.off ⊆ (KillSwitch.ofSwitches settings.off).off := by
    rw [KillSwitch.off_ofSwitches]
    exact List.subset_reverse.mpr (List.Subset.refl _)
  refine ⟨before, after, tf, hcut, htf, fun text token symbols hsymbols htoken hsame =>
    ⟨hsame ▸ mem_of_parseSymbols hsymbols htoken, fun moves f hf hsymbol hforce => ?_,
      fun b options asked name reports hforce hreports report hreport hsymbol => ?_⟩⟩
  · have hdesk : Desk.Heeds settings.off ⟨⟨.ofSwitches settings.off, x⟩, []⟩ :=
      ⟨hstart, List.forall_mem_nil _⟩
    have hrun := (hdesk.play source build moves).runs f hf hforce
    rw [← hsymbol] at hoff
    refine ⟨?_, hrun.not_ready hoff⟩
    rintro step hstep rfl hv
    exact hrun.steps step hstep (Run.isValid_iff.mpr hv) hoff
  · obtain ⟨hheeds, hfirst⟩ := Pipeline.heeds_runFrom hstart hforce hreports report hreport
    rw [← hsymbol] at hoff
    refine ⟨?_, fun hmem => hheeds.not_ready tf (hfirst ▸ hmem) hoff⟩
    rintro step hstep rfl hv
    exact hheeds.steps step hstep (Run.isValid_iff.mpr hv) hoff

/-- Settings with an entry in lower case and with blanks in it. -/
def Settings.spaced : SettingsSource :=
  Ini.source ⟨[⟨"kill_switch", "off", some "btcusdt : 5M"⟩]⟩

/-- The contexts without any facts. -/
def ContextBuilder.bare : ContextBuilder :=
  fun symbol tf _ _ _ => .ok (Context.ofFacts symbol tf [])

/-- A run that would be ready if nothing were off. -/
def Settings.steadyMoves : List Move :=
  .launch "BTCUSDT" "run" Pipeline.steadyBook { now := ⟨86400, 0⟩ } :: List.replicate 5 (.turn 0)

/-- The desk after this run. -/
def Settings.steadyDesk : Desk Unit :=
  Desk.play Pipeline.steadySource .bare ⟨⟨.ofSwitches [("BTCUSDT", .m5)], ()⟩, []⟩ steadyMoves

/-- The run is skipped on five minutes. -/
theorem Settings.switches_bind_spaced : ∃ settings symbols, ofSource spaced = .ok settings ∧
    settings.off = [("BTCUSDT", .m5)] ∧ parseSymbols "ETHUSDT, BtcUsdt" = .ok symbols ∧
    ∃ f ∈ steadyDesk.flights, f.run.symbol = "BTCUSDT" ∧
      f.run.steps.map (·.timeframe) = [.h4, .h1, .m15, .m5] ∧
      (∀ step ∈ f.run.steps, step.timeframe = .m5 → step.status ≠ .valid) ∧
      f.run.result.status ≠ .ready := by
  have hread : (ofSource spaced).toOption = some ⟨none, 4, none, none, [("BTCUSDT", .m5)]⟩ := by
    decide +kernel
  have hsymbols : (parseSymbols "ETHUSDT, BtcUsdt").toOption = some ["ETHUSDT", "BTCUSDT"] := by
    decide +kernel
  have hsettings := toOption_eq_some.mp hread
  have hbatch := toOption_eq_some.mp hsymbols
  have hentry : "btcusdt : 5M" ∈ spaced.list "kill_switch" "off" := by decide +kernel
  obtain ⟨before, after, tf, hcut, htf, hbind⟩ :=
    switches_bind Pipeline.steadySource .bare () hsettings hentry
  -- what the entry says
  have hparts : Text.cutFirst ':' "btcusdt : 5M" = some ("btcusdt ", " 5M") := by decide +kernel
  obtain ⟨rfl, rfl⟩ := Prod.mk.inj (Option.some.inj (hparts.symm.trans hcut))
  have hfive : Timeframe.parse? " 5M" = some .m5 := by decide +kernel
  obtain rfl := Option.some.inj (hfive.symm.trans htf)
  obtain ⟨-, hdesk, -⟩ := hbind "ETHUSDT, BtcUsdt" " BtcUsdt" _ hbatch (by decide +kernel)
    (by decide +kernel)
  have hsame : normalSymbol "btcusdt " = "BTCUSDT" := by decide +kernel
  rw [hsame] at hdesk
  -- the run
  have hflights : (steadyDesk.flights.map fun f => (f.run.symbol, f.options.flags.forceRun,
      f.run.start, f.run.steps.map (·.timeframe))) =
        [("BTCUSDT", false, .h4, [.h4, .h1, .m15, .m5])] := by decide +kernel
  obtain ⟨f, hf, hfacts⟩ := List.mem_map.mp (hflights ▸ List.mem_cons_self)
  simp only [Prod.mk.injEq] at hfacts
  obtain ⟨hsymbol, hforce, hstart, hsteps⟩ := hfacts
  obtain ⟨hvalid, hready⟩ := hdesk steadyMoves f hf hsymbol hforce
  exact ⟨_, _, hsettings, rfl, hbatch, f, hf, hsymbol, hsteps, hvalid,
    hready (by rw [hstart]; decide)⟩

end TopDown
