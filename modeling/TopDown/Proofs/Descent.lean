import Mathlib.Data.List.Nodup
import TopDown.Descent

/-!
# How a run ends

A run down the timeframes stops at the first step that is not valid or that speaks for another side
than the one before it. This file says so of whole runs, whatever the processors do: they may answer
with any result, break down, or be missing.

`TopDown.Run.Answers` is one attempt of a timeframe and `TopDown.Run.Attempts` a chain of them, in
which every step knows the signals of the steps above it. `TopDown.Run.Underway` is what holds of a
run between two steps and `TopDown.Run.Finished` what holds of it at the end;
`TopDown.Run.advance_underway` takes the one to the other or keeps it, and
`TopDown.Run.complete_finished` follows a run from its beginning to its end. The rest of the file
reads the result of a run off the way it ended.
-/

namespace TopDown

variable {σ : Type}

namespace Run

/-! ### Attempts -/

/-- What the first step of a run knows. -/
def firstView (b : Book) (options : RunOptions) (runId : RunId) : RunView :=
  ⟨runId, options.now, [], options.flags, b⟩

/-- What the next step knows after one more step. -/
def viewAfter (view : RunView) (step : StepResult) : RunView :=
  { view with prior := view.prior ++ [step.known] }

/-- **One attempt** of a timeframe: the step that comes of it and the shared state it leaves. A
processor that breaks down and one that is missing both make an error of the step. -/
inductive Answers (processors : ByTimeframe (Processor σ)) (symbol : String) (view : RunView)
    (tf : Timeframe) (s : σ) : StepResult → σ → Prop
  /-- The processor of the timeframe answers. -/
  | answered {process : Processor σ} {step : StepResult} {s' : σ} (hp : processors tf = some process)
      (h : process symbol view s = (.ok step, s')) : Answers processors symbol view tf s step s'
  /-- The processor of the timeframe breaks down. -/
  | broken {process : Processor σ} {crash : Crash} {s' : σ} (hp : processors tf = some process)
      (h : process symbol view s = (.error crash, s')) :
      Answers processors symbol view tf s (.broken tf crash) s'
  /-- The timeframe has no processor. -/
  | unattended (hp : processors tf = none) : Answers processors symbol view tf s (.unattended tf) s

/-- **A chain of attempts**, one for each timeframe of a list, in order. Each of them knows the
signals of the steps before it and finds the state that they left. -/
inductive Attempts (processors : ByTimeframe (Processor σ)) (symbol : String) :
    RunView → List Timeframe → σ → List StepResult → σ → Prop
  /-- Nothing is attempted. -/
  | nil {view : RunView} {s : σ} : Attempts processors symbol view [] s [] s
  /-- A timeframe is attempted, and then the others. -/
  | cons {view : RunView} {tf : Timeframe} {rest : List Timeframe} {s s' s'' : σ}
      {step : StepResult} {steps : List StepResult}
      (h : Answers processors symbol view tf s step s')
      (hrest : Attempts processors symbol (viewAfter view step) rest s' steps s'') :
      Attempts processors symbol view (tf :: rest) s (step :: steps) s''

variable {processors : ByTimeframe (Processor σ)} {symbol : String}

theorem attempt_answers {view : RunView} {tf : Timeframe} {s s' : σ} {step : StepResult}
    (h : attempt processors tf symbol view s = (step, s')) :
    Answers processors symbol view tf s step s' := by
  unfold attempt at h
  split at h
  · rename_i hp
    cases h
    exact .unattended hp
  · rename_i process hp
    split at h
    · rename_i step s' hok
      cases h
      exact .answered hp hok
    · rename_i crash s' herr
      cases h
      exact .broken hp herr

/-- A chain may be continued by one more attempt, which knows all of its signals. -/
theorem Attempts.snoc {view : RunView} {done : List Timeframe} {s s' s'' : σ}
    {steps : List StepResult} {tf : Timeframe} {step : StepResult}
    (h : Attempts processors symbol view done s steps s')
    (hlast : Answers processors symbol
      { view with prior := view.prior ++ steps.map StepResult.known } tf s' step s'') :
    Attempts processors symbol view (done ++ [tf]) s (steps ++ [step]) s'' := by
  induction h with
  | nil =>
    refine .cons ?_ .nil
    simpa using hlast
  | cons hfirst _ ih =>
    refine .cons hfirst (ih ?_)
    simpa [viewAfter, List.append_assoc] using hlast

/-- Processors that label their results with their own timeframes. -/
def Labelling (processors : ByTimeframe (Processor σ)) : Prop :=
  ∀ tf process symbol view s step s', processors tf = some process →
    process symbol view s = (.ok step, s') → step.timeframe = tf

theorem Answers.timeframe_eq (hl : Labelling processors) {view : RunView} {tf : Timeframe}
    {s s' : σ} {step : StepResult} (h : Answers processors symbol view tf s step s') :
    step.timeframe = tf := by
  cases h with
  | answered hp hok => exact hl _ _ _ _ _ _ _ hp hok
  | broken _ _ => rfl
  | unattended _ => rfl

/-- The steps are valid and speak for one side. -/
def Agree (steps : List StepResult) : Prop :=
  ∃ side, ∀ step ∈ steps, step.isValid = true ∧ step.side = side

/-- **The three ways in which a step ends a run**: it is not valid, it speaks for another side than
the step before it, or it agrees and no timeframe is left. Only in the last case is its signal kept
with those of the steps before it. -/
inductive Ends (before : List StepResult) (tf : Timeframe) (rest : List Timeframe)
    (step : StepResult) (known : List KnownSignal) : Ending → Prop
  /-- The step is not valid. -/
  | refused (hv : step.isValid = false) (hk : known = before.map StepResult.known) :
      Ends before tf rest step known (.stopped (.ofStep step.status) tf step.endingReason)
  /-- The step speaks for another side. -/
  | misaligned {parent : StepResult} (hv : step.isValid = true)
      (hp : before.getLast? = some parent) (hne : step.side ≠ parent.side)
      (hk : known = before.map StepResult.known) :
      Ends before tf rest step known
        (.stopped .invalid tf (some (.misaligned tf parent.timeframe)))
  /-- All timeframes agree. -/
  | agreed (ha : Agree (before ++ [step])) (hrest : rest = [])
      (hk : known = (before ++ [step]).map StepResult.known) :
      Ends before tf rest step known (endingAt step)

section Invariants

variable (processors : ByTimeframe (Processor σ)) (b : Book) (options : RunOptions)
  (symbol : String) (runId : RunId) (start : Timeframe) (s₀ : σ)

/-- **What holds of a run between two steps**: it has attempted the beginning of its sequence, all of
its steps agree, and it knows their signals. -/
structure Underway (r : Run) (s : σ) : Prop where
  /-- The run is that of the symbol. -/
  same : r.symbol = symbol ∧ r.runId = runId ∧ r.start = start
  /-- It has not ended. -/
  ending : r.ending = none
  /-- Some timeframe is still to come. -/
  pending : r.pending ≠ []
  /-- What it has attempted. -/
  attempted : ∃ done, start.sequence = done ++ r.pending ∧
    Attempts processors symbol (firstView b options runId) done s₀ r.steps s
  /-- What it knows. -/
  known : r.known = r.steps.map StepResult.known
  /-- Its steps agree. -/
  agree : Agree r.steps

/-- **What holds of a run at its end**: all steps before the last agree, and the last one ended it. -/
structure Finished (r : Run) (s : σ) : Prop where
  /-- The run is that of the symbol. -/
  same : r.symbol = symbol ∧ r.runId = runId ∧ r.start = start
  /-- How it ended. -/
  ending : ∃ ending done tf rest before step, r.ending = some ending ∧
    start.sequence = done ++ tf :: rest ∧ r.steps = before ++ [step] ∧
    Attempts processors symbol (firstView b options runId) (done ++ [tf]) s₀ r.steps s ∧
    Agree before ∧ Ends before tf rest step r.known ending

end Invariants

variable {b : Book} {options : RunOptions} {runId : RunId} {start : Timeframe} {s₀ : σ}

theorem sequence_ne_nil (tf : Timeframe) : tf.sequence ≠ [] := by
  cases tf <;> decide

/-- A run that is about to start is under way. -/
theorem begin_underway (b : Book) (options : RunOptions) (symbol : String) (runId : RunId) (s : σ) :
    Underway processors b options symbol runId (options.start.getD b.start) s
      (Run.begin symbol runId b options) s where
  same := ⟨rfl, rfl, rfl⟩
  ending := rfl
  pending := sequence_ne_nil _
  attempted := ⟨[], rfl, .nil⟩
  known := rfl
  agree := ⟨.none, fun _ h => absurd h List.not_mem_nil⟩

/-- Steps that agree, and one more for the side of the last of them, agree. -/
theorem Agree.snoc {steps : List StepResult} {step : StepResult} (h : Agree steps)
    (hv : step.isValid = true)
    (hside : ∀ parent, steps.getLast? = some parent → step.side = parent.side) :
    Agree (steps ++ [step]) := by
  obtain ⟨side, hall⟩ := h
  refine ⟨step.side, fun st hst => ?_⟩
  rcases List.mem_append.mp hst with hst | hst
  · obtain ⟨parent, hp⟩ := Option.ne_none_iff_exists'.mp
      (mt List.getLast?_eq_none_iff.mp (List.ne_nil_of_mem hst))
    have hlast : step.side = side := by
      rw [hside parent hp]
      exact (hall parent (List.mem_of_getLast? hp)).2
    exact ⟨(hall st hst).1, by rw [(hall st hst).2, hlast]⟩
  · rw [List.mem_singleton.mp hst]
    exact ⟨hv, rfl⟩

theorem misalignment_eq_none {r : Run} {step : StepResult} (h : r.misalignment? step = none) :
    ∀ parent, r.steps.getLast? = some parent → step.side = parent.side := by
  intro parent hp
  unfold misalignment? at h
  rw [hp] at h
  simpa using h

theorem misalignment_eq_some {r : Run} {step : StepResult} {tf : Timeframe}
    (h : r.misalignment? step = some tf) :
    ∃ parent, r.steps.getLast? = some parent ∧ step.side ≠ parent.side ∧ parent.timeframe = tf := by
  unfold misalignment? at h
  split at h
  · rename_i parent hp
    refine ⟨parent, hp, ?_⟩
    split at h
    · cases h
    · rename_i hne
      exact ⟨hne, Option.some.inj h⟩
  · cases h

/-- **One step of a run**: it goes on with one timeframe less, or it ends. -/
theorem advance_underway {r r' : Run} {s s' : σ} {records : List AuditRecord}
    (h : Underway processors b options symbol runId start s₀ r s)
    (hadv : r.advance processors b options s = (r', records, s')) :
    (Underway processors b options symbol runId start s₀ r' s' ∧
        r'.pending.length < r.pending.length) ∨
      Finished processors b options symbol runId start s₀ r' s' := by
  obtain ⟨⟨rfl, rfl, rfl⟩, hnone, hpend, ⟨done, hseq, hatt⟩, hknown, hagree⟩ := h
  obtain ⟨tf, rest, hp⟩ := List.exists_cons_of_ne_nil hpend
  unfold advance at hadv
  rw [hnone, hp] at hadv
  rcases hstep : attempt processors tf r.symbol (r.view b options) s with ⟨step, s₁⟩
  simp only [hstep] at hadv
  obtain ⟨rfl, -, rfl⟩ : r.take tf rest step = r' ∧ _ ∧ s₁ = s' := by simpa using hadv
  rw [hp] at hseq
  have hlast : Attempts processors r.symbol (firstView b options r.runId) (done ++ [tf]) s₀
      (r.steps ++ [step]) s₁ := by
    refine hatt.snoc ?_
    have hview : r.view b options =
        { firstView b options r.runId with
          prior := (firstView b options r.runId).prior ++ r.steps.map StepResult.known } := by
      simp [Run.view, firstView, hknown]
    rw [← hview]
    exact attempt_answers hstep
  unfold take
  cases hv : step.isValid with
  | false =>
    -- the step is not valid
    exact .inr ⟨⟨rfl, rfl, rfl⟩, _, done, tf, rest, r.steps, step, rfl, hseq, rfl, hlast, hagree,
      .refused hv hknown⟩
  | true =>
    cases hm : r.misalignment? step with
    | some parentTf =>
      -- it speaks for another side
      obtain ⟨parent, hpar, hne, rfl⟩ := misalignment_eq_some hm
      exact .inr ⟨⟨rfl, rfl, rfl⟩, _, done, tf, rest, r.steps, step, rfl, hseq, rfl, hlast, hagree,
        .misaligned hv hpar hne hknown⟩
    | none =>
      have hagree' := hagree.snoc hv (misalignment_eq_none hm)
      have hknown' : r.known ++ [step.known] = (r.steps ++ [step]).map StepResult.known := by
        rw [hknown, List.map_append]
        rfl
      cases rest with
      | nil =>
        exact .inr ⟨⟨rfl, rfl, rfl⟩, _, done, tf, [], r.steps, step, rfl, hseq, rfl, hlast, hagree,
          .agreed hagree' rfl hknown'⟩
      | cons next later =>
        refine .inl ⟨⟨⟨rfl, rfl, rfl⟩, rfl, List.cons_ne_nil _ _, ⟨done ++ [tf], ?_, hlast⟩,
          hknown', hagree'⟩, ?_⟩
        · rw [hseq, List.append_assoc]
          rfl
        · rw [hp]
          exact Nat.lt_succ_self _

/-- A run that has ended takes no more steps. -/
theorem advanceTimes_ended {r : Run} {ending : Ending} (h : r.ending = some ending) (n : Nat)
    (s : σ) : r.advanceTimes processors b options n s = (r, [], s) := by
  induction n with
  | zero => rfl
  | succ n ih =>
    have hadv : r.advance processors b options s = (r, [], s) := by
      unfold advance
      rw [h]
    rw [advanceTimes, hadv]
    simp only [ih, List.append_nil]

/-- A run that takes as many steps as it has timeframes left ends. -/
theorem advanceTimes_finished {n : Nat} {r r' : Run} {s s' : σ} {records : List AuditRecord}
    (h : Underway processors b options symbol runId start s₀ r s) (hn : r.pending.length ≤ n)
    (hadv : r.advanceTimes processors b options n s = (r', records, s')) :
    Finished processors b options symbol runId start s₀ r' s' := by
  induction n generalizing r s records with
  | zero => exact absurd (List.length_eq_zero_iff.mp (Nat.le_zero.mp hn)) h.pending
  | succ n ih =>
    rcases hone : r.advance processors b options s with ⟨r₁, first, s₁⟩
    rcases hrest : r₁.advanceTimes processors b options n s₁ with ⟨r₂, later, s₂⟩
    simp only [advanceTimes, hone, hrest] at hadv
    obtain ⟨rfl, -, rfl⟩ : r₂ = r' ∧ _ ∧ s₂ = s' := by simpa using hadv
    rcases advance_underway h hone with ⟨hunder, hlt⟩ | hfin
    · exact ih hunder (by omega) hrest
    · obtain ⟨ending, _, _, _, _, _, he, _⟩ := hfin.ending
      rw [advanceTimes_ended he] at hrest
      cases hrest
      exact hfin

/-- **Every run ends**, from any state and whatever its processors do. -/
theorem complete_finished {r : Run} {s s' : σ} {records : List AuditRecord}
    (h : (Run.begin symbol runId b options).complete processors b options s = (r, records, s')) :
    Finished processors b options symbol runId (options.start.getD b.start) s r s' :=
  advanceTimes_finished (begin_underway b options symbol runId s) (Nat.le_refl _) h

/-! ### Results -/

/-- The result of a run that has ended is that of its ending. -/
theorem result_eq {r : Run} {ending : Ending} (h : r.ending = some ending) :
    r.result = r.resultOf ending := by
  unfold result
  rw [h]
  rfl

theorem ofStep_ne_ready (status : StepStatus) : SymbolStatus.ofStep status ≠ .ready := by
  cases status <;> decide

theorem isValid_iff {step : StepResult} : step.isValid = true ↔ step.status = .valid := by
  simp [StepResult.isValid]

theorem isDirectional_iff {side : Side} : side.isDirectional = true ↔ side ≠ .none := by
  cases side <;> decide

/-- An ending is that of a ready run only where all steps agree on a side to trade on. -/
theorem Ends.ready {before : List StepResult} {tf : Timeframe} {rest : List Timeframe}
    {step : StepResult} {known : List KnownSignal} (h : Ends before tf rest step known .ready) :
    rest = [] ∧ step.side ≠ .none ∧ Agree (before ++ [step]) ∧
      known = (before ++ [step]).map StepResult.known := by
  generalize he : Ending.ready = ending at h
  cases h with
  | refused _ _ => cases he
  | misaligned _ _ _ _ => cases he
  | agreed ha hrest hk =>
    refine ⟨hrest, ?_, ha, hk⟩
    unfold endingAt at he
    split at he
    · exact isDirectional_iff.mp ‹_›
    · cases he

/-- A run that is stopped is not ready. -/
theorem Ends.stopped_ne_ready {before : List StepResult} {tf : Timeframe} {rest : List Timeframe}
    {step : StepResult} {known : List KnownSignal} {status : SymbolStatus} {failed : Timeframe}
    {reason : Option Reason} (h : Ends before tf rest step known (.stopped status failed reason)) :
    status ≠ .ready := by
  generalize he : Ending.stopped status failed reason = ending at h
  cases h with
  | refused _ _ =>
    cases he
    exact ofStep_ne_ready _
  | misaligned _ _ _ _ =>
    cases he
    decide
  | agreed _ _ _ =>
    unfold endingAt at he
    split at he
    · cases he
    · cases he
      decide

/-- **A run that is ready** has attempted its whole sequence, and all of its steps agree on the side
of the result. -/
theorem Finished.of_ready {r : Run} {s : σ}
    (h : Finished processors b options symbol runId start s₀ r s)
    (hr : r.result.status = .ready) :
    Attempts processors symbol (firstView b options runId) start.sequence s₀ r.steps s ∧
      ∃ last, r.steps.getLast? = some last ∧ last.side ≠ .none ∧
        (∀ step ∈ r.steps, step.isValid = true ∧ step.side = last.side) ∧
        r.result.execution = some last.timeframe ∧ r.result.side = some last.side ∧
        r.result.failed = none ∧ r.result.known = r.steps.map StepResult.known := by
  obtain ⟨-, ending, done, tf, rest, before, step, he, hseq, hsteps, hatt, -, hends⟩ := h
  rw [result_eq he] at hr ⊢
  cases ending with
  | stopped status failed reason => exact absurd hr hends.stopped_ne_ready
  | ready =>
    obtain ⟨rfl, hside, hall, hknown⟩ := hends.ready
    rw [hseq]
    have hlast : r.steps.getLast? = some step := by rw [hsteps, List.getLast?_concat]
    refine ⟨hatt, step, hlast, hside, ?_, ?_, ?_, rfl, ?_⟩
    · obtain ⟨side, hall⟩ := hall
      rw [hsteps]
      intro st hst
      rw [(hall step (by simp)).2]
      exact hall st hst
    · simp [resultOf, hlast]
    · simp [resultOf, hlast]
    · rw [hsteps]
      exact hknown

/-- A run that is not ready was stopped, and carries nothing to trade on. -/
theorem Finished.of_not_ready {r : Run} {s : σ}
    (h : Finished processors b options symbol runId start s₀ r s)
    (hr : r.result.status ≠ .ready) : r.result.execution = none ∧ r.result.side = none := by
  obtain ⟨-, ending, -, -, -, -, -, he, -⟩ := h
  rw [result_eq he] at hr ⊢
  cases ending with
  | ready => exact absurd rfl hr
  | stopped status failed reason => exact ⟨rfl, rfl⟩

/-- Why a run that is not ready has ended with a valid step: the step speaks for another side than
the one before it, or all timeframes agree to trade on neither side. -/
def Unsigned (steps : List StepResult) (last : StepResult) (rest : List Timeframe)
    (reason : Option Reason) : Prop :=
  (∃ parent, steps.dropLast.getLast? = some parent ∧ last.side ≠ parent.side ∧
      reason = some (.misaligned last.timeframe parent.timeframe)) ∨
    (rest = [] ∧ last.side = .none ∧ reason = some .noSignal)

/-- What the result of a run says that is not ready, by the status of its last step. -/
structure Refusal (steps : List StepResult) (last : StepResult) (rest : List Timeframe)
    (result : SymbolResult) : Prop where
  /-- The last timeframe attempted is the one that failed. -/
  failed : result.failed = some last.timeframe
  /-- There is no timeframe to enter on. -/
  execution : result.execution = none
  /-- There is no side to trade on. -/
  side : result.side = none
  /-- The signals are those of the steps before the last; that of the last is with them only where
  all timeframes agree. -/
  known : result.known = steps.dropLast.map StepResult.known ∨
    (rest = [] ∧ Agree steps ∧ result.known = steps.map StepResult.known)
  /-- A skipped step ends the run as skipped. -/
  skipped : last.status = .skipped → result.status = .skipped
  /-- A step in its grace window ends the run as such. -/
  graceWindow : last.status = .graceWindow → result.status = .graceWindow
  /-- An error ends the run with an error. -/
  error : last.status = .error → result.status = .error
  /-- An invalid step ends the run as invalid. -/
  invalid : last.status = .invalid → result.status = .invalid
  /-- A valid step ends the run as invalid, for one of two reasons. -/
  valid : last.status = .valid →
    result.status = .invalid ∧ Unsigned steps last rest result.reason

/-- **A run that is not ready** says where it failed and carries nothing to trade on. -/
theorem Ends.refusal {r : Run} {before : List StepResult} {rest : List Timeframe}
    {step : StepResult} {status : SymbolStatus} {failed : Timeframe} {reason : Option Reason}
    (h : Ends before step.timeframe rest step r.known (.stopped status failed reason)) :
    Refusal (before ++ [step]) step rest (r.resultOf (.stopped status failed reason)) := by
  generalize he : Ending.stopped status failed reason = ending at h
  cases h with
  | refused hv hk =>
    cases he
    have hne : step.status ≠ .valid := fun hs => by
      rw [isValid_iff.mpr hs] at hv
      cases hv
    refine ⟨rfl, rfl, rfl, .inl ?_, fun hs => ?_, fun hs => ?_, fun hs => ?_, fun hs => ?_,
      fun hs => absurd hs hne⟩
    · rw [List.dropLast_concat]
      exact hk
    all_goals
      show SymbolStatus.ofStep step.status = _
      rw [hs]
      rfl
  | misaligned hv hp hne hk =>
    cases he
    have hs := isValid_iff.mp hv
    refine ⟨rfl, rfl, rfl, .inl ?_, fun h => ?_, fun h => ?_, fun h => ?_, fun h => ?_,
      fun _ => ⟨rfl, .inl ⟨_, ?_, hne, rfl⟩⟩⟩
    · rw [List.dropLast_concat]
      exact hk
    · simp [hs] at h
    · simp [hs] at h
    · simp [hs] at h
    · simp [hs] at h
    · rw [List.dropLast_concat]
      exact hp
  | agreed ha hrest hk =>
    obtain ⟨side, hall⟩ := id ha
    have hs := isValid_iff.mp (hall step (by simp)).1
    by_cases hd : step.side.isDirectional = true
    · rw [endingAt, if_pos hd] at he
      cases he
    · rw [endingAt, if_neg hd] at he ⊢
      cases he
      have hnone : step.side = .none := by
        by_contra hc
        exact hd (isDirectional_iff.mpr hc)
      refine ⟨rfl, rfl, rfl, .inr ⟨hrest, ha, hk⟩, fun h => ?_, fun h => ?_, fun h => ?_,
        fun h => ?_, fun _ => ⟨rfl, .inr ⟨hrest, hnone, rfl⟩⟩⟩ <;> simp [hs] at h

end Run

end TopDown
