import TopDown.Proofs.Ready
import TopDown.Proofs.Share

/-!
# What the force flags cannot do

The flags of a run open gates. They must not be able to do more: whoever forces a run wants a verdict
where there was none, and not another one. So we compare two runs, one under some flags and one
under flags that pass by at least the same gates (`TopDown.Flags.Within`).

The whole matter lies in the gates. A gate that was open stays open under larger flags
(`TopDown.shutGate_widened`), and nothing else looks at the flags. A step that comes out valid,
invalid or as an error has found all gates open or has not come to them, so it comes out the same
(`TopDown.takeStep_widened`), and leaves the same state. A step that a gate has decided may well
come out otherwise, and then the steps below it know other signals: that is why only runs that are
ready can be compared as a whole (`TopDown.Run.complete_widened`).

If everything is forced, no gate but the first is left, and no step can end at one of the others
(`TopDown.Run.Attempts.ungated`). `TopDown.Pipeline.force_bypasses` puts all this together.
-/

namespace TopDown

/-! ### Larger flags -/

/-- **The larger flags pass by every gate that the smaller ones pass by.** -/
structure Flags.Within (f g : Flags) : Prop where
  /-- What passes by all gates but the first still does. -/
  forceRun : f.forceRun = true → g.forceRun = true
  /-- What passes by the second gate still does. -/
  forceFresh : f.forceFresh = true → g.forceFresh = true

namespace StepResult

/-- **The step is a verdict**: it is valid, invalid or an error, and not the doing of a gate. -/
def Judged (step : StepResult) : Prop :=
  step.status = .valid ∨ step.status = .invalid ∨ step.status = .error

/-- No gate behind the first one has decided the step. -/
structure Ungated (step : StepResult) : Prop where
  /-- The grace window has not. -/
  status_ne : step.status ≠ .graceWindow
  /-- If the step was not taken, it was for want of bars. -/
  reason_eq : step.status = .skipped → step.reason = some .insufficientData

theorem judged_of_isValid {step : StepResult} (h : step.isValid = true) : step.Judged :=
  .inl (Run.isValid_iff.mp h)

theorem Judged.ungated {step : StepResult} (h : step.Judged) : step.Ungated := by
  rcases h with h | h | h <;> constructor <;> simp [h]

theorem ungated_skipped (tf : Timeframe) : (skipped tf .insufficientData).Ungated :=
  ⟨by simp [skipped], fun _ => rfl⟩

/-- A computation that stopped gives an error, if it gives anything. -/
theorem judged_of_ofStop {tf : Timeframe} {stop : Stop} {step : StepResult}
    (h : ofStop tf stop = .ok step) : step.Judged := by
  cases stop with
  | fault f =>
    cases h
    exact .inr (.inr rfl)
  | crash c => cases h

end StepResult

/-! ### Gates -/

section Gates

variable {tf : Timeframe} {symbol : String} {view : RunView} {switch : KillSwitch} {last : Bar}

/-- No gate is shut where each of them is open or passed by. -/
theorem shutGate_of_open
    (hfresh : view.flags.forceRun = true ∨ view.flags.forceFresh = true ∨
      last.isClosedAt view.now = .ok true)
    (hopen : view.flags.forceRun = true ∨ switch.allows symbol tf view.now = true ∧
      inGraceWindow view.book tf view.now = false) :
    shutGate tf symbol view switch last = .ok none := by
  have hf : freshness view last = .ok true := by
    unfold freshness
    split
    · rfl
    · rename_i hskip
      rcases hfresh with h | h | h
      · simp [Flags.skipsFreshness, h] at hskip
      · simp [Flags.skipsFreshness, h] at hskip
      · exact h
  rw [shutGate_eq, hf]
  rcases hopen with h | ⟨hallows, hgrace⟩
  · simp [bind, Except.bind, h]
  · simp [bind, Except.bind, hallows, hgrace]

/-- **Gates that are open stay open under larger flags.** -/
theorem shutGate_widened {g : Flags} (hfg : view.flags.Within g)
    (h : shutGate tf symbol view switch last = .ok none) :
    shutGate tf symbol { view with flags := g } switch last = .ok none := by
  obtain ⟨hfresh, hopen⟩ := shutGate_none h
  exact shutGate_of_open (hfresh.imp hfg.forceRun (Or.imp_left hfg.forceFresh))
    (hopen.imp_left hfg.forceRun)

/-- If everything is forced, no gate is shut. -/
theorem shutGate_forced (h : view.flags.forceRun = true) :
    shutGate tf symbol view switch last = .ok none :=
  shutGate_of_open (.inl h) (.inl h)

/-- A step that a gate has decided is no verdict. -/
theorem not_judged_of_shutGate {step : StepResult}
    (h : shutGate tf symbol view switch last = .ok (some step)) : ¬step.Judged := by
  rcases shutGate_cases h with rfl | rfl | rfl <;>
    simp [StepResult.Judged, StepResult.skipped, StepResult.graceWindow]

end Gates

/-! ### Steps -/

theorem judge_status (tf : Timeframe) (long short : List Labelled) :
    (judge tf long short).status = .valid ∨ (judge tf long short).status = .invalid := by
  simp only [judge]
  split
  · exact .inr rfl
  · exact .inl rfl

/-- Checking the rules gives a verdict, unless a rule breaks down. -/
theorem checkRules_status {b : Book} {tf : Timeframe} {c : Context} {step : StepResult}
    (h : checkRules b tf c = .ok step) : step.status = .valid ∨ step.status = .invalid := by
  unfold checkRules at h
  split at h
  · cases h
    exact .inr rfl
  · split at h
    · cases h
      exact .inr rfl
    · dsimp only at h
      split at h
      · cases h
      · cases h
        exact judge_status tf _ _

section Steps

variable {σ : Type} {source : BarSource σ} {build : ContextBuilder} {tf : Timeframe}
  {symbol : String} {view : RunView} {step : StepResult}

/-- A step behind the first gate is that of a gate, or all gates were open and it is a verdict. -/
theorem stepBehindBars_cases {switch : KillSwitch} {bars : List Bar} {last : Bar}
    (h : stepBehindBars build tf symbol view switch bars last = .ok step) :
    shutGate tf symbol view switch last = .ok (some step) ∨
      shutGate tf symbol view switch last = .ok none ∧ step.Judged := by
  unfold stepBehindBars at h
  obtain ⟨shut, hshut, h⟩ := bind_eq_ok.mp h
  cases shut with
  | some result =>
    cases h
    exact .inl hshut
  | none =>
    refine .inr ⟨hshut, ?_⟩
    dsimp only at h
    split at h
    · exact StepResult.judged_of_ofStop h
    · obtain ⟨result, hcheck, h⟩ := bind_eq_ok.mp h
      cases h
      exact (checkRules_status hcheck).imp_right .inl

/-- A step for which there are too few bars is skipped for that, or cannot tell how long they take. -/
theorem stepShortOfBars_eq {needed available : Nat} {w : World σ}
    (h : (stepShortOfBars tf symbol view needed available w).1 = .ok step) :
    step = .skipped tf .insufficientData := by
  unfold stepShortOfBars at h
  split at h
  · cases h
    rfl
  · cases h

/-- **Where a step looks at the flags**: nowhere, and then it is an error or there are too few bars; or
else behind the first gate only. -/
theorem takeStep_flags (source : BarSource σ) (build : ContextBuilder) (tf : Timeframe)
    (symbol : String) (view : RunView) (w : World σ) :
    ((∀ f, takeStep source build tf symbol { view with flags := f } w =
        takeStep source build tf symbol view w) ∧
      ∀ step, (takeStep source build tf symbol view w).1 = .ok step →
        step.Judged ∨ step = .skipped tf .insufficientData) ∨
      ∃ bars last s, ∀ f, takeStep source build tf symbol { view with flags := f } w =
        (stepBehindBars build tf symbol { view with flags := f } w.switch bars last,
          { w with source := s }) := by
  simp only [takeStep_eq]
  generalize source.bars symbol tf (view.book.minBars tf) w.source = asked
  obtain ⟨stop | bars, s⟩ := asked
  · exact .inl ⟨fun _ => rfl, fun _ h => .inl (StepResult.judged_of_ofStop h)⟩
  · simp only [stepWithBars]
    split
    · exact .inl ⟨fun _ => rfl, fun _ h => .inr (stepShortOfBars_eq h)⟩
    · dsimp only
      generalize source.last symbol tf s = asked
      obtain ⟨stop | newest, s⟩ := asked
      · exact .inl ⟨fun _ => rfl, fun _ h => .inl (StepResult.judged_of_ofStop h)⟩
      · simp only [stepWithNewest]
        cases newest.or bars.getLast? with
        | none => exact .inl ⟨fun _ => rfl, fun _ h => .inr (Except.ok.inj h).symm⟩
        | some last => exact .inr ⟨bars, last, s, fun _ => rfl⟩

/-- If everything is forced, no gate behind the first decides a step. -/
theorem takeStep_ungated {w w' : World σ} (hforce : view.flags.forceRun = true)
    (h : takeStep source build tf symbol view w = (.ok step, w')) : step.Ungated := by
  rcases takeStep_flags source build tf symbol view w with ⟨-, hstep⟩ | ⟨bars, last, s, hgates⟩
  · rcases hstep step (congrArg Prod.fst h) with hj | rfl
    · exact hj.ungated
    · exact StepResult.ungated_skipped tf
  · have hbehind := (hgates view.flags).symm.trans h
    rcases stepBehindBars_cases (congrArg Prod.fst hbehind) with hshut | ⟨-, hj⟩
    · rw [shutGate_forced hforce] at hshut
      cases hshut
    · exact hj.ungated

variable {g : Flags}

theorem stepBehindBars_widened (hfg : view.flags.Within g) {switch : KillSwitch}
    {bars : List Bar} {last : Bar}
    (h : stepBehindBars build tf symbol view switch bars last = .ok step) (hj : step.Judged) :
    stepBehindBars build tf symbol { view with flags := g } switch bars last = .ok step := by
  rcases stepBehindBars_cases h with hshut | ⟨hopen, -⟩
  · exact absurd hj (not_judged_of_shutGate hshut)
  · -- behind the gates nothing looks at the flags
    unfold stepBehindBars at h ⊢
    rw [shutGate_widened hfg hopen]
    rw [hopen] at h
    exact h

/-- **Larger flags do not change a verdict**, nor the state that the step leaves. -/
theorem takeStep_widened (hfg : view.flags.Within g) {w w' : World σ}
    (h : takeStep source build tf symbol view w = (.ok step, w')) (hj : step.Judged) :
    takeStep source build tf symbol { view with flags := g } w = (.ok step, w') := by
  rcases takeStep_flags source build tf symbol view w with ⟨hsame, -⟩ | ⟨bars, last, s, hgates⟩
  · rw [hsame g, h]
  · have hbehind := (hgates view.flags).symm.trans h
    obtain ⟨hstep, hstate⟩ := Prod.mk.inj hbehind
    rw [hgates g, stepBehindBars_widened hfg hstep hj, hstate]

end Steps

/-! ### Runs -/

section Runs

variable {σ : Type}

/-- **Processors that are not swayed by flags**: what one of them has judged comes out the same under
any larger flags. -/
def Unswayed (processors : ByTimeframe (Processor σ)) : Prop :=
  ∀ tf process, processors tf = some process → ∀ symbol view g s step s', view.flags.Within g →
    process symbol view s = (.ok step, s') → step.Judged →
    process symbol { view with flags := g } s = (.ok step, s')

/-- The processors that take steps by the rules are not swayed by flags. -/
theorem unswayed_ruleProcessors (source : BarSource σ) (build : ContextBuilder) :
    Unswayed (ruleProcessors source build) := by
  intro tf process hp symbol view g s step s' hfg h hj
  cases hp
  exact takeStep_widened hfg h hj

end Runs

namespace Run

section Widened

variable {σ : Type} {processors : ByTimeframe (Processor σ)} {b : Book} {options : RunOptions}
  {g : Flags} {r r' : Run} {s s' : σ} {records : List AuditRecord}

theorem attempt_widened (hu : Unswayed processors) {tf : Timeframe} {symbol : String}
    {view : RunView} {step : StepResult} (hfg : view.flags.Within g)
    (h : attempt processors tf symbol view s = (step, s')) (hv : step.isValid = true) :
    attempt processors tf symbol { view with flags := g } s = (step, s') := by
  cases attempt_answers h with
  | answered hp hok =>
    unfold attempt
    rw [hp]
    simp only [hu tf _ hp symbol view g s step s' hfg hok (StepResult.judged_of_isValid hv)]
  | broken _ _ => cases hv
  | unattended _ => cases hv

/-- A step that does not stop the run was a valid one. -/
theorem isValid_of_take {tf : Timeframe} {rest : List Timeframe} {step : StepResult}
    (h : ∀ status failed reason, (r.take tf rest step).ending ≠ some (.stopped status failed reason)) :
    step.isValid = true := by
  by_contra hv
  refine h (.ofStep step.status) tf step.endingReason ?_
  rw [take, if_pos (by simpa using hv)]
  rfl

/-- A step that does not stop the run is the same under larger flags. -/
theorem advance_widened (hu : Unswayed processors) (hfg : options.flags.Within g)
    (h : r.advance processors b options s = (r', records, s'))
    (hgo : ∀ status failed reason, r'.ending ≠ some (.stopped status failed reason)) :
    r.advance processors b { options with flags := g } s = (r', records, s') := by
  unfold advance at h ⊢
  split at h
  · rename_i tf rest _ _
    rcases hstep : attempt processors tf r.symbol (r.view b options) s with ⟨step, s₁⟩
    simp only [hstep] at h
    obtain ⟨rfl, -, -⟩ : r.take tf rest step = r' ∧ _ ∧ s₁ = s' := by simpa using h
    have hwithin : (r.view b options).flags.Within g := hfg
    have hsame : attempt processors tf r.symbol (r.view b { options with flags := g }) s =
        (step, s₁) :=
      attempt_widened hu hwithin hstep (isValid_of_take hgo)
    simp only [hsame]
    exact h
  · exact h

/-- **Larger flags do not change a run that is ready**, by induction on the steps that are left: had one
of them been decided by a gate, the run would have stopped there. -/
theorem advanceTimes_widened (hu : Unswayed processors) (hfg : options.flags.Within g) {n : Nat}
    (h : r.advanceTimes processors b options n s = (r', records, s'))
    (hr : r'.ending = some .ready) :
    r.advanceTimes processors b { options with flags := g } n s = (r', records, s') := by
  induction n generalizing r s records with
  | zero => exact h
  | succ n ih =>
    rcases hone : r.advance processors b options s with ⟨r₁, first, s₁⟩
    rcases hrest : r₁.advanceTimes processors b options n s₁ with ⟨r₂, later, s₂⟩
    simp only [advanceTimes, hone, hrest] at h
    obtain ⟨rfl, rfl, rfl⟩ : r₂ = r' ∧ first ++ later = records ∧ s₂ = s' := by simpa using h
    have hgo : ∀ status failed reason, r₁.ending ≠ some (.stopped status failed reason) := by
      intro status failed reason he
      rw [advanceTimes_ended he] at hrest
      cases hrest
      rw [he] at hr
      cases hr
    simp only [advanceTimes, advance_widened hu hfg hone hgo, ih hrest]

end Widened

section Complete

variable {σ : Type} {source : BarSource σ} {build : ContextBuilder} {b : Book}
  {options : RunOptions} {symbol : String} {runId : RunId} {r : Run} {w w' : World σ}
  {records : List AuditRecord}

/-- A run is ready only if it ended so. -/
theorem Finished.ending_of_ready {processors : ByTimeframe (Processor σ)} {start : Timeframe}
    {s₀ s : σ} (h : Finished processors b options symbol runId start s₀ r s)
    (hr : r.result.status = .ready) : r.ending = some .ready := by
  obtain ⟨ending, _, _, _, _, _, he, _, _, _, _, hends⟩ := h.ending
  rw [result_eq he] at hr
  cases ending with
  | ready => exact he
  | stopped status failed reason => exact absurd hr hends.stopped_ne_ready

/-- **A run that is ready is the same under larger flags**, with its records and the state it
leaves. -/
theorem complete_widened {g : Flags} (hfg : options.flags.Within g)
    (h : (Run.begin symbol runId b options).complete (ruleProcessors source build) b options w =
      (r, records, w')) (hr : r.result.status = .ready) :
    (Run.begin symbol runId b { options with flags := g }).complete (ruleProcessors source build) b
      { options with flags := g } w = (r, records, w') :=
  advanceTimes_widened (unswayed_ruleProcessors source build) hfg h
    ((complete_finished h).ending_of_ready hr)

/-- If everything is forced, no gate behind the first decides a step of a chain. -/
theorem Attempts.ungated {view : RunView} {tfs : List Timeframe} {steps : List StepResult}
    (h : Attempts (ruleProcessors source build) symbol view tfs w steps w')
    (hforce : view.flags.forceRun = true) : ∀ step ∈ steps, step.Ungated := by
  induction h with
  | nil =>
    intro step hstep
    cases hstep
  | cons hfirst _ ih =>
    intro step hstep
    rcases List.mem_cons.mp hstep with rfl | hstep
    · cases hfirst with
      | answered hp hok =>
        cases hp
        exact takeStep_ungated hforce hok
      | broken _ _ => exact StepResult.Judged.ungated (.inr (.inr rfl))
      | unattended _ => exact StepResult.Judged.ungated (.inr (.inr rfl))
    · exact ih hforce step hstep

end Complete

end Run

/-! ### Together -/

namespace Pipeline

variable {σ : Type}

/-- **Force flags bypass gates and change no verdict.** A step that comes out valid, invalid or as an
error comes out the same under all larger flags, and leaves the same state. A run that is ready is
the same run under all larger flags, and so is its report. And where everything is forced, no step is
in its grace window, and one that was not taken had too few bars. -/
theorem force_bypasses (source : BarSource σ) (build : ContextBuilder) :
    (∀ tf symbol view g w step w', view.flags.Within g →
      takeStep source build tf symbol view w = (.ok step, w') → step.Judged →
      takeStep source build tf symbol { view with flags := g } w = (.ok step, w')) ∧
    (∀ b options g symbol runId w r records w', options.flags.Within g →
      (Run.begin symbol runId b options).complete (ruleProcessors source build) b options w =
        (r, records, w') → r.result.status = .ready →
      (Run.begin symbol runId b { options with flags := g }).complete (ruleProcessors source build)
          b { options with flags := g } w = (r, records, w') ∧
        runSymbol (ruleProcessors source build) b { options with flags := g } runId symbol w =
          runSymbol (ruleProcessors source build) b options runId symbol w) ∧
    (∀ tf symbol view w step w', view.flags.forceRun = true →
      takeStep source build tf symbol view w = (.ok step, w') → step.Ungated) ∧
    ∀ b options symbol runId w r records w', options.flags.forceRun = true →
      (Run.begin symbol runId b options).complete (ruleProcessors source build) b options w =
        (r, records, w') → ∀ step ∈ r.steps, step.Ungated := by
  refine ⟨fun _ _ _ _ _ _ _ hfg h hj => takeStep_widened hfg h hj, ?_,
    fun _ _ _ _ _ _ hforce h => takeStep_ungated hforce h, ?_⟩
  · intro b options g symbol runId w r records w' hfg h hr
    have hsame := Run.complete_widened hfg h hr
    refine ⟨hsame, ?_⟩
    unfold runSymbol
    rw [h, hsame]
  · intro b options symbol runId w r records w' hforce h
    obtain ⟨_, _, _, _, _, _, _, _, _, hatt, _⟩ := (Run.complete_finished h).ending
    exact hatt.ungated hforce

/-- A builder whose contexts are empty. -/
def emptyBuilder : ContextBuilder := fun symbol tf _ _ _ => .ok (Context.ofFacts symbol tf [])

/-- A run of the steady book under the given flags, with how it leaves the state. -/
def steadyRun (flags : Flags) : Run × List AuditRecord × World Unit :=
  (Run.begin "BTCUSDT" "run" steadyBook { now := ⟨86400, 0⟩, flags }).complete
    (ruleProcessors steadySource emptyBuilder) steadyBook { now := ⟨86400, 0⟩, flags } ⟨.clear, ()⟩

/-- The first step of that run. -/
def steadyStep (flags : Flags) : Except Crash StepResult × World Unit :=
  takeStep steadySource emptyBuilder .h4 "BTCUSDT" ⟨"run", ⟨86400, 0⟩, [], flags, steadyBook⟩
    ⟨.clear, ()⟩

/-- That run is ready by itself. Forcing it changes neither the run nor its first step. -/
theorem force_bypasses_steady : (steadyRun {}).1.result.status = .ready ∧
    steadyRun ⟨true, false⟩ = steadyRun {} ∧ steadyStep ⟨true, false⟩ = steadyStep {} ∧
    (∀ step, (steadyStep ⟨true, false⟩).1 = .ok step → step.Ungated) ∧
    ∀ step ∈ (steadyRun ⟨true, false⟩).1.steps, step.Ungated := by
  have hready : (steadyRun {}).1.result.status = .ready := by decide +kernel
  have hvalid : (steadyStep {}).1.toOption.map (·.status) = some .valid := by decide +kernel
  have hlarger : Flags.Within {} ⟨true, false⟩ :=
    ⟨fun h => absurd h (by decide), fun h => absurd h (by decide)⟩
  obtain ⟨hsteps, hruns, hforcedStep, hforcedRun⟩ :=
    force_bypasses steadySource emptyBuilder
  refine ⟨hready, (hruns _ { now := ⟨86400, 0⟩ } ⟨true, false⟩ _ _ _ _ _ _ hlarger rfl hready).1, ?_,
    fun step h => hforcedStep _ _ _ _ step _ rfl (Prod.ext h rfl),
    hforcedRun _ { now := ⟨86400, 0⟩, flags := ⟨true, false⟩ } _ _ _ _ _ _ rfl rfl⟩
  obtain ⟨step, hstep, hstatus⟩ := Option.map_eq_some_iff.mp hvalid
  have htaken : steadyStep {} = (.ok step, (steadyStep {}).2) :=
    Prod.ext (toOption_eq_some.mp hstep) rfl
  rw [htaken]
  exact hsteps _ _ _ _ _ _ _ hlarger htaken (.inl hstatus)

end Pipeline

end TopDown
