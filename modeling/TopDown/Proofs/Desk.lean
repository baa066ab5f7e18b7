import TopDown.Proofs.Batch
import TopDown.Proofs.Calls
import TopDown.Proofs.Gate
import TopDown.Proofs.Isolation

/-!
# Runs under the kill switch

Operators call the kill switch while runs are on their way, and the runs call it themselves: a step
that finds too few bars disables its symbol. A `TopDown.Desk` is the state that they share, together
with the runs that have been launched, and a history is a list of moves: a call of an operator, the
launch of a run, or the next step of one of the runs (`TopDown.Desk.play`). Moves come in any order.

Two lemmas say all that a step has to do with the switch. What it changes there is what its calls ask
for (`TopDown.takeStep_switch`), and if it is valid, the switch allows it (`TopDown.takeStep_valid`).
The first makes the switch follow all calls of a history, those of operators and those of steps alike
(`TopDown.Desk.follows_play`). With the second, and since nothing that is called brings a symbol back,
no run gains a valid step from any moment on in which the switch forbids it
(`TopDown.Desk.exists_gained`).
-/

namespace TopDown

open KillSwitch (Call)

variable {σ : Type}

/-! ### The calls of a step -/

/-- The calls that a step makes: with too few bars, it disables its symbol. -/
def stepCalls (source : BarSource σ) (tf : Timeframe) (symbol : String) (view : RunView) (s : σ) :
    List Call :=
  let needed := (view.book.minBars tf).toNat
  match (source.bars symbol tf (view.book.minBars tf) s).1 with
  | .ok bars =>
    if bars.length < needed then
      [.disableFor symbol (shortfallSeconds tf needed bars.length) view.now]
    else []
  | .error _ => []

section Steps

variable (source : BarSource σ) (build : ContextBuilder) (tf : Timeframe) (symbol : String)
  (view : RunView) (w : World σ)

/-- Once there are enough bars, a step leaves the switch as it is. -/
theorem stepWithNewest_switch (bars : List Bar) (answer : Except Stop (Option Bar)) :
    (stepWithNewest build tf symbol view bars answer w).2.switch = w.switch := by
  cases answer with
  | error stop => rfl
  | ok newest =>
    rw [stepWithNewest]
    cases newest.or bars.getLast? <;> rfl

/-- A step without enough bars disables its symbol and is skipped, or breaks down and leaves the
switch as it is. -/
theorem stepShortOfBars_cases (needed available : Nat) :
    (∃ t, view.now.later (shortfallSeconds tf needed available) = .ok t ∧
      stepShortOfBars tf symbol view needed available w =
        (.ok (.skipped tf .insufficientData), { w with switch := w.switch.disableUntil symbol t })) ∨
    ∃ crash, view.now.later (shortfallSeconds tf needed available) = .error crash ∧
      stepShortOfBars tf symbol view needed available w = (.error crash, w) := by
  unfold stepShortOfBars KillSwitch.disableFor
  cases hlater : view.now.later (shortfallSeconds tf needed available) with
  | ok t => exact .inl ⟨t, rfl, rfl⟩
  | error crash => exact .inr ⟨crash, rfl, rfl⟩

/-- **What a step does to the switch**: it leaves it as it is, or disables its symbol until some
instant, and then it is skipped for want of bars. -/
theorem takeStep_switch_cases :
    (takeStep source build tf symbol view w).2.switch = w.switch ∨
    ∃ t, takeStep source build tf symbol view w =
      (.ok (.skipped tf .insufficientData),
        { (takeStep source build tf symbol view w).2 with
          switch := w.switch.disableUntil symbol t }) := by
  rw [takeStep_eq]
  rcases source.bars symbol tf (view.book.minBars tf) w.source with ⟨_ | bars, s⟩
  · exact .inl rfl
  · dsimp only
    rw [stepWithBars]
    split
    · rcases stepShortOfBars_cases tf symbol view { w with source := s }
        (view.book.minBars tf).toNat bars.length with ⟨t, -, h⟩ | ⟨crash, -, h⟩
      · exact .inr ⟨t, by rw [h]⟩
      · exact .inl (by rw [h])
    · exact .inl (stepWithNewest_switch build tf symbol view _ bars _)

/-- **The switch obeys the calls of a step**, and nothing else changes it. -/
theorem takeStep_switch : (takeStep source build tf symbol view w).2.switch =
    (stepCalls source tf symbol view w.source).foldl KillSwitch.obey w.switch := by
  rw [takeStep_eq, stepCalls]
  rcases source.bars symbol tf (view.book.minBars tf) w.source with ⟨_ | bars, s⟩
  · rfl
  · dsimp only
    rw [stepWithBars]
    split
    · rw [List.foldl_cons, List.foldl_nil, KillSwitch.obey_disableFor]
      rcases stepShortOfBars_cases tf symbol view { w with source := s }
        (view.book.minBars tf).toNat bars.length with ⟨t, hlater, h⟩ | ⟨crash, hlater, h⟩
      · rw [h, hlater]
        rfl
      · rw [h, hlater]
    · exact stepWithNewest_switch build tf symbol view _ bars _

end Steps

/-! ### Histories -/

/-- A run on its way, with its book and what is asked of it. -/
structure Flight where
  /-- The run. -/
  run : Run
  /-- The rules. -/
  book : Book
  /-- What is asked of the run. -/
  options : RunOptions

/-- The runs that have been launched, and the state that they share. -/
structure Desk (σ : Type) where
  /-- The shared state. -/
  world : World σ
  /-- The runs. -/
  flights : List Flight

/-- What may happen at a desk. -/
inductive Move where
  /-- An operator calls the kill switch. -/
  | call (c : Call)
  /-- A run is launched. -/
  | launch (symbol : String) (runId : RunId) (book : Book) (options : RunOptions)
  /-- The run at the given place takes its next step. -/
  | turn (place : Nat)

namespace Desk

/-- A desk at which nothing has happened yet. -/
def opened (s : σ) : Desk σ :=
  ⟨⟨KillSwitch.clear, s⟩, []⟩

/-- The run at a place takes its next step, if there is such a run and it has not ended. -/
def turn (source : BarSource σ) (build : ContextBuilder) (d : Desk σ) (place : Nat) : Desk σ :=
  match d.flights[place]? with
  | some f =>
    let (run, _, world) := f.run.advance (ruleProcessors source build) f.book f.options d.world
    ⟨world, d.flights.set place { f with run }⟩
  | none => d

/-- The desk after a move. -/
def move (source : BarSource σ) (build : ContextBuilder) (d : Desk σ) : Move → Desk σ
  | .call c => { d with world := { d.world with switch := d.world.switch.obey c } }
  | .launch symbol runId book options =>
    { d with flights := d.flights ++ [⟨Run.begin symbol runId book options, book, options⟩] }
  | .turn place => d.turn source build place

/-- The desk after a history. -/
def play (source : BarSource σ) (build : ContextBuilder) (d : Desk σ) (moves : List Move) : Desk σ :=
  moves.foldl (move source build) d

/-- The calls that the next step of a run makes. A run that has ended makes none. -/
def nextCalls (source : BarSource σ) (s : σ) (f : Flight) : List Call :=
  match f.run.ending, f.run.pending with
  | none, tf :: _ => stepCalls source tf f.run.symbol (f.run.view f.book f.options) s
  | _, _ => []

/-- The calls that are made in a move. -/
def callsOf (source : BarSource σ) (d : Desk σ) : Move → List Call
  | .call c => [c]
  | .launch _ _ _ _ => []
  | .turn place => (d.flights[place]?).elim [] (nextCalls source d.world.source)

/-- The calls that are made in a history, by operators and by runs. -/
def calls (source : BarSource σ) (build : ContextBuilder) : Desk σ → List Move → List Call
  | _, [] => []
  | d, m :: rest => d.callsOf source m ++ calls source build (d.move source build m) rest

/-- The steps of the run at a place. There are none before it is launched. -/
def stepsAt (d : Desk σ) (place : Nat) : List StepResult :=
  (d.flights[place]?).elim [] (·.run.steps)

/-! ### Turns -/

section Turns

variable {source : BarSource σ} {build : ContextBuilder} {d : Desk σ} {place : Nat}

theorem take_steps (r : Run) (tf : Timeframe) (rest : List Timeframe) (step : StepResult) :
    (r.take tf rest step).steps = r.steps ++ [step] ∧ (r.take tf rest step).symbol = r.symbol := by
  rw [Run.take]
  split
  · exact ⟨rfl, rfl⟩
  · split <;> exact ⟨rfl, rfl⟩

/-- **A turn**: nothing happens, or the run at the place takes the step of its next timeframe. -/
theorem turn_cases (source : BarSource σ) (build : ContextBuilder) (d : Desk σ) (place : Nat) :
    (d.turn source build place = d ∧ d.callsOf source (.turn place) = []) ∨
    ∃ f tf rest, d.flights[place]? = some f ∧
      let view := f.run.view f.book f.options
      let taken := takeStep source build tf f.run.symbol view d.world
      d.turn source build place = ⟨taken.2, d.flights.set place
        { f with run := f.run.take tf rest (Run.stepOf tf taken.1) }⟩ ∧
      d.callsOf source (.turn place) = stepCalls source tf f.run.symbol view d.world.source := by
  rw [turn, callsOf]
  cases hf : d.flights[place]? with
  | none => exact .inl ⟨rfl, rfl⟩
  | some f =>
    have hset : d.flights.set place f = d.flights := by
      obtain ⟨hlt, rfl⟩ := List.getElem?_eq_some_iff.mp hf
      exact List.set_getElem_self hlt
    rw [Option.elim_some, nextCalls]
    dsimp only
    unfold Run.advance
    cases hending : f.run.ending with
    | some ending =>
      refine .inl ⟨?_, rfl⟩
      dsimp only
      rw [hset]
    | none =>
      cases hpending : f.run.pending with
      | nil =>
        refine .inl ⟨?_, rfl⟩
        dsimp only
        rw [hset]
      | cons tf rest =>
        have hprocess : ruleProcessors source build tf = some (takeStep source build tf) := rfl
        refine .inr ⟨f, tf, rest, rfl, ?_, rfl⟩
        dsimp only
        rw [Run.attempt_eq hprocess]

/-- **What a turn does to the switch**: it leaves it as it is, or the run has disabled its own symbol,
in a step that is skipped for want of bars. -/
theorem turn_switch (source : BarSource σ) (build : ContextBuilder) (d : Desk σ) (place : Nat) :
    (d.turn source build place).world.switch = d.world.switch ∨
    ∃ f f' tf t, d.flights[place]? = some f ∧
      (d.turn source build place).flights[place]? = some f' ∧
      f'.run.steps = f.run.steps ++ [.skipped tf .insufficientData] ∧
      (d.turn source build place).world.switch = d.world.switch.disableUntil f.run.symbol t := by
  rcases turn_cases source build d place with ⟨h, -⟩ | ⟨f, tf, rest, hf, h, -⟩
  · exact .inl (by rw [h])
  · rcases takeStep_switch_cases source build tf f.run.symbol (f.run.view f.book f.options) d.world
      with hsame | ⟨t, htaken⟩
    · exact .inl (by rw [h]; exact hsame)
    · refine .inr ⟨f, { f with run := f.run.take tf rest (.skipped tf .insufficientData) }, tf, t, hf,
        ?_, (take_steps ..).1, ?_⟩
      · rw [h, htaken]
        exact List.getElem?_set_self (List.getElem?_eq_some_iff.mp hf).1
      · rw [h]
        exact congrArg (fun taken => taken.2.switch) htaken

/-- The switch obeys the calls of a move. -/
theorem move_switch (d : Desk σ) (m : Move) : (d.move source build m).world.switch =
    (d.callsOf source m).foldl KillSwitch.obey d.world.switch := by
  cases m with
  | call c => rfl
  | launch symbol runId book options => rfl
  | turn place =>
    show (d.turn source build place).world.switch = _
    rcases turn_cases source build d place with ⟨h, hcalls⟩ | ⟨f, tf, rest, -, h, hcalls⟩
    · rw [h, hcalls, List.foldl_nil]
    · rw [h, hcalls]
      exact takeStep_switch ..

/-- **The switch follows all calls of a history.** -/
theorem follows_play {before : List Call} (h : d.world.switch.Follows before) (moves : List Move) :
    (d.play source build moves).world.switch.Follows (before ++ d.calls source build moves) := by
  induction moves generalizing d before with
  | nil =>
    rw [calls, List.append_nil]
    exact h
  | cons m rest ih =>
    have hmove : (d.move source build m).world.switch.Follows (before ++ d.callsOf source m) := by
      rw [move_switch]
      exact h.foldl_obey _
    rw [calls, ← List.append_assoc]
    exact ih hmove

end Turns

/-! ### New steps -/

section Gains

variable {source : BarSource σ} {build : ContextBuilder} {d : Desk σ} {place : Nat}

/-- **What a run has gained since some moment**: the steps that are new, none of which is valid against
what the switch allowed at that moment. -/
structure Gained (d : Desk σ) (place : Nat) (f : Flight) (new : List StepResult) : Prop where
  /-- The steps of the run then, and the new ones. -/
  steps : f.run.steps = d.stepsAt place ++ new
  /-- It is the same run, if it had been launched. -/
  same : ∀ f₀, d.flights[place]? = some f₀ → f₀.run.symbol = f.run.symbol ∧ f₀.options = f.options
  /-- The switch allowed the valid ones, unless it was passed by. -/
  allowed : f.options.flags.forceRun = false → ∀ step ∈ new, step.isValid = true →
    d.world.switch.allows f.run.symbol step.timeframe f.options.now = true

theorem stepsAt_eq {f : Flight} (h : d.flights[place]? = some f) : d.stepsAt place = f.run.steps := by
  rw [stepsAt, h]
  rfl

theorem stepsAt_of_none (h : d.flights[place]? = none) : d.stepsAt place = [] := by
  rw [stepsAt, h]
  rfl

/-- A run that stands still gains nothing. -/
theorem gained_nil {f : Flight} (h : d.flights[place]? = some f) : d.Gained place f [] where
  steps := by rw [stepsAt_eq h, List.append_nil]
  same f₀ h₀ := by
    obtain rfl := Option.some.inj (h₀.symm.trans h)
    exact ⟨rfl, rfl⟩
  allowed _ _ hstep := absurd hstep List.not_mem_nil

/-- The step of a turn is backed, if it is valid. -/
theorem backing_of_valid {tf : Timeframe} {symbol : String} (view : RunView) {w : World σ}
    (hv : (Run.stepOf tf (takeStep source build tf symbol view w).1).isValid = true) :
    Nonempty (Backing source build symbol view tf w
      (Run.stepOf tf (takeStep source build tf symbol view w).1)
      (takeStep source build tf symbol view w).2) := by
  rcases htaken : takeStep source build tf symbol view w with ⟨crash | step, w'⟩
  · rw [htaken] at hv
    cases hv
  · rw [htaken] at hv
    exact takeStep_valid htaken hv

/-- The switch allows it then. -/
theorem allowed_of_valid {tf : Timeframe} {symbol : String} (view : RunView) {w : World σ}
    (hforce : view.flags.forceRun = false)
    (hv : (Run.stepOf tf (takeStep source build tf symbol view w).1).isValid = true) :
    w.switch.allows symbol (Run.stepOf tf (takeStep source build tf symbol view w).1).timeframe
      view.now = true := by
  obtain ⟨backing⟩ := backing_of_valid view hv
  rw [backing.timeframe_eq]
  exact backing.allowed.resolve_left (by rw [hforce]; decide)

/-- A run gains the step that it takes. -/
theorem gained_step {f : Flight} (h : d.flights[place]? = some f) (tf : Timeframe)
    (rest : List Timeframe) :
    let taken := takeStep source build tf f.run.symbol (f.run.view f.book f.options) d.world
    d.Gained place { f with run := f.run.take tf rest (Run.stepOf tf taken.1) }
      [Run.stepOf tf taken.1] := by
  intro taken
  obtain ⟨hsteps, hsymbol⟩ := take_steps f.run tf rest (Run.stepOf tf taken.1)
  refine ⟨?_, fun f₀ h₀ => ?_, fun hforce step hstep hv => ?_⟩
  · rw [stepsAt_eq h]
    exact hsteps
  · obtain rfl := Option.some.inj (h₀.symm.trans h)
    exact ⟨hsymbol.symm, rfl⟩
  · obtain rfl := List.mem_singleton.mp hstep
    dsimp only
    rw [hsymbol]
    exact allowed_of_valid (f.run.view f.book f.options) hforce hv

/-- **One move.** -/
theorem exists_gained_move {m : Move} {f : Flight}
    (h : (d.move source build m).flights[place]? = some f) : ∃ new, d.Gained place f new := by
  cases m with
  | call c => exact ⟨[], gained_nil h⟩
  | launch symbol runId book options =>
    rw [move] at h
    rcases Nat.lt_or_ge place d.flights.length with hlt | hge
    · rw [List.getElem?_append_left hlt] at h
      exact ⟨[], gained_nil h⟩
    · -- the run has just been launched
      have hnone : d.flights[place]? = none := List.getElem?_eq_none hge
      rw [List.getElem?_append_right hge, List.getElem?_singleton] at h
      split at h
      · obtain rfl := Option.some.inj h
        exact ⟨[], by rw [stepsAt_of_none hnone]; rfl, fun f₀ h₀ => (nomatch h₀.symm.trans hnone),
          fun _ _ hstep => absurd hstep List.not_mem_nil⟩
      · cases h
  | turn other =>
    change (d.turn source build other).flights[place]? = some f at h
    rcases turn_cases source build d other with ⟨hturn, -⟩ | ⟨f₀, tf, rest, hf₀, hturn, -⟩
    · rw [hturn] at h
      exact ⟨[], gained_nil h⟩
    · rw [hturn] at h
      by_cases hplace : other = place
      · subst hplace
        change (d.flights.set other _)[other]? = some f at h
        rw [List.getElem?_set_self (List.getElem?_eq_some_iff.mp hf₀).1] at h
        obtain rfl := Option.some.inj h
        exact ⟨_, gained_step hf₀ tf rest⟩
      · change (d.flights.set other _)[place]? = some f at h
        rw [List.getElem?_set_ne hplace] at h
        exact ⟨[], gained_nil h⟩

/-- No run is ever forgotten. -/
theorem length_flights_move (d : Desk σ) (m : Move) :
    d.flights.length ≤ (d.move source build m).flights.length := by
  cases m with
  | call c => exact Nat.le_refl _
  | launch symbol runId book options =>
    show d.flights.length ≤ (d.flights ++ [_]).length
    rw [List.length_append]
    exact Nat.le_add_right ..
  | turn place =>
    show d.flights.length ≤ (d.turn source build place).flights.length
    rcases turn_cases source build d place with ⟨h, -⟩ | ⟨f, tf, rest, -, h, -⟩
    · exact Nat.le_of_eq (congrArg (·.flights.length) h.symm)
    · rw [h]
      exact Nat.le_of_eq List.length_set.symm

/-- What is gained in a move, and what is gained after it. What the switch allows after the move, it
has allowed before. -/
theorem Gained.cons {m : Move} {f : Flight} {new : List StepResult}
    (h : (d.move source build m).Gained place f new)
    (hallows : ∀ symbol tf now, (d.move source build m).world.switch.allows symbol tf now = true →
      d.world.switch.allows symbol tf now = true) :
    ∃ new, d.Gained place f new := by
  cases hf : (d.move source build m).flights[place]? with
  | none =>
    -- the run was launched later still
    have hnone : d.flights[place]? = none := by
      rw [List.getElem?_eq_none_iff] at hf ⊢
      exact Nat.le_trans (length_flights_move d m) hf
    refine ⟨new, ⟨?_, fun f₀ h₀ => (nomatch h₀.symm.trans hnone), fun hforce step hstep hv => ?_⟩⟩
    · rw [stepsAt_of_none hnone, ← stepsAt_of_none hf]
      exact h.steps
    · exact hallows _ _ _ (h.allowed hforce step hstep hv)
  | some f₁ =>
    obtain ⟨new₁, h₁⟩ := exists_gained_move hf
    obtain ⟨hsymbol, hoptions⟩ := h.same f₁ hf
    refine ⟨new₁ ++ new, ⟨?_, fun f₀ h₀ => ?_, fun hforce step hstep hv => ?_⟩⟩
    · rw [h.steps, stepsAt_eq hf, h₁.steps, List.append_assoc]
    · rw [← hsymbol, ← hoptions]
      exact h₁.same f₀ h₀
    · rcases List.mem_append.mp hstep with hstep | hstep
      · rw [← hsymbol, ← hoptions]
        rw [← hoptions] at hforce
        exact h₁.allowed hforce step hstep hv
      · exact hallows _ _ _ (h.allowed hforce step hstep hv)

/-- **A whole history**: of the steps that a run gains from some moment on, only those are valid that
the switch allowed at that moment already. -/
theorem exists_gained {before : List Call} (hfollows : d.world.switch.Follows before)
    {moves : List Move} {f : Flight} (h : (d.play source build moves).flights[place]? = some f) :
    ∃ new, d.Gained place f new := by
  induction moves generalizing d before with
  | nil => exact ⟨[], gained_nil h⟩
  | cons m rest ih =>
    have hmove : (d.move source build m).world.switch.Follows (before ++ d.callsOf source m) := by
      rw [move_switch]
      exact hfollows.foldl_obey _
    obtain ⟨new, hnew⟩ := ih hmove h
    exact hnew.cons fun symbol tf now => hfollows.allows_of_later hmove

end Gains

/-! ### Whole histories -/

/-- **The kill switch over a whole history**, in which operators call it, runs are launched, and runs
take steps by the rules, all in any order. At any moment, and with the calls that have been made by
then:

* a symbol is disabled until the latest of the ends that were asked for, in whichever order;
* the switch allows what was never switched off, from the end of that time on;
* the next step of a run leaves it as it is, or disables the run's own symbol and is skipped for want of
  bars;
* whatever happens later, no timed disable is shortened, and no run that heeds the switch gains a valid
  step at a time before the end, nor on a timeframe that is switched off. -/
theorem switch_history (source : BarSource σ) (build : ContextBuilder) (s : σ) (moves : List Move) :
    let d := (opened s).play source build moves
    let calls := (opened s).calls source build moves
    (∀ symbol, Instant.LatestOf (KillSwitch.endsOf symbol calls)
      (d.world.switch.disabledUntil symbol)) ∧
    (∀ calls', calls'.Perm calls → ∀ symbol,
      (KillSwitch.after calls').disabledUntil symbol = d.world.switch.disabledUntil symbol) ∧
    (∀ symbol tf now, d.world.switch.allows symbol tf now = true ↔
      .switchOff symbol tf ∉ calls ∧
        ∀ t, d.world.switch.disabledUntil symbol = some t → t.upTo now = true) ∧
    (∀ place, (d.turn source build place).world.switch = d.world.switch ∨
      ∃ f f' step, d.flights[place]? = some f ∧
        (d.turn source build place).flights[place]? = some f' ∧
        f'.run.steps = f.run.steps ++ [step] ∧
        step.status = .skipped ∧ step.reason = some .insufficientData ∧
        (d.turn source build place).world.switch.off = d.world.switch.off ∧
        ∀ other, other ≠ f.run.symbol →
          (d.turn source build place).world.switch.disabledUntil other =
            d.world.switch.disabledUntil other) ∧
    ∀ later, let d' := d.play source build later
      (∀ symbol t, d.world.switch.disabledUntil symbol = some t →
        ∃ u, d'.world.switch.disabledUntil symbol = some u ∧ t.upTo u = true) ∧
      ∀ (place : Nat) f, d'.flights[place]? = some f → f.options.flags.forceRun = false →
        ∃ new, f.run.steps = d.stepsAt place ++ new ∧
          (∀ t, d.world.switch.disabledUntil f.run.symbol = some t →
            f.options.now.before t = true → ∀ step ∈ new, step.isValid = false) ∧
          ∀ step ∈ new, .switchOff f.run.symbol step.timeframe ∈ calls → step.isValid = false := by
  intro d calls
  have hclear : (opened s).world.switch.Follows [] := KillSwitch.follows_clear
  have hfollows : d.world.switch.Follows calls := follows_play hclear moves
  refine ⟨hfollows.ends, fun calls' hperm => (KillSwitch.follows_after calls').disabledUntil_perm
    hfollows hperm, fun symbol tf now => hfollows.allows_iff, fun place => ?_, fun later => ?_⟩
  · rcases turn_switch source build d place with h | ⟨f, f', tf, t, hf, hf', hsteps, hswitch⟩
    · exact .inl h
    · refine .inr ⟨f, f', _, hf, hf', hsteps, rfl, rfl, ?_, fun other hne => ?_⟩
      · rw [hswitch]
        rfl
      · rw [hswitch]
        exact (Prod.mk.inj (KillSwitch.disableUntil_others hne t)).2
  · intro d'
    refine ⟨fun symbol t ht => hfollows.later (follows_play hfollows later) ht, ?_⟩
    intro place f hf hforce
    obtain ⟨new, hnew⟩ := exists_gained hfollows hf
    refine ⟨new, hnew.steps, fun t ht hbefore step hstep => ?_, fun step hstep hoff => ?_⟩
    · by_contra hv
      have hallows := hnew.allowed hforce step hstep (Bool.not_eq_false _ ▸ hv)
      have hupTo := (hfollows.allows_iff.mp hallows).2 t ht
      rw [Instant.upTo_eq_false.mpr hbefore] at hupTo
      cases hupTo
    · by_contra hv
      have hallows := hnew.allowed hforce step hstep (Bool.not_eq_false _ ▸ hv)
      exact (hfollows.allows_iff.mp hallows).1 hoff

/-- A desk at which a run of a symbol has been launched and has taken its step, and the symbol was
disabled for an hour then. -/
def disabledDesk (b : Book) : Desk BarFiles :=
  (opened Pipeline.oneFile).play (BarFiles.source "bars") (Snapshot.builder 14)
    [.launch "AUSDT" "first" b Pipeline.noon, .turn 0,
      .call (.disableFor "AUSDT" 3600 Pipeline.noon.now)]

/-- The same run again, at the same time. -/
def secondRun (b : Book) : List Move :=
  [.launch "AUSDT" "second" b Pipeline.noon, .turn 1]

/-- The step of the first run is valid. The second run has no valid step. -/
theorem switch_history_disabled : ∃ b,
    Book.compile .builtin (.obj (Pipeline.risingMinutes [])) = .ok b ∧
    (disabledDesk b).world.switch.disabledUntil "AUSDT" = some ⟨46800, 0⟩ ∧
    Pipeline.noon.now.before ⟨46800, 0⟩ = true ∧
    (disabledDesk b).flights.map (fun f => f.run.steps.map (·.isValid)) = [[true]] ∧
    ∃ f, ((disabledDesk b).play (BarFiles.source "bars") (Snapshot.builder 14)
        (secondRun b)).flights[1]? = some f ∧
      f.run.steps.length = 1 ∧ ∀ step ∈ f.run.steps, step.isValid = false := by
  have hfirst : ((Book.compile .builtin (.obj (Pipeline.risingMinutes []))).toOption.map fun b =>
      ((disabledDesk b).world.switch.disabledUntil "AUSDT",
        (disabledDesk b).flights.map fun f => f.run.steps.map (·.isValid))) =
      some (some ⟨46800, 0⟩, [[true]]) := by decide +kernel
  have hsecond : ((Book.compile .builtin (.obj (Pipeline.risingMinutes []))).toOption.map fun b =>
      ((disabledDesk b).play (BarFiles.source "bars") (Snapshot.builder 14)
        (secondRun b)).flights[1]?.map fun f =>
          (f.run.symbol, f.options.now, f.options.flags.forceRun, f.run.steps.length)) =
      some (some ("AUSDT", ⟨43200, 0⟩, false, 1)) := by decide +kernel
  obtain ⟨b, hb, hfirst⟩ := Option.map_eq_some_iff.mp hfirst
  obtain ⟨huntil, hvalid⟩ := Prod.mk.inj hfirst
  rw [hb, Option.map_some] at hsecond
  obtain ⟨f, hf, hlast⟩ := Option.map_eq_some_iff.mp (Option.some.inj hsecond)
  simp only [Prod.mk.injEq] at hlast
  obtain ⟨hsymbol, hnow, hforce, hlength⟩ := hlast
  refine ⟨b, toOption_eq_some.mp hb, huntil, by decide, hvalid, f, hf, hlength, ?_⟩
  obtain ⟨-, -, -, -, hlater⟩ := switch_history (BarFiles.source "bars") (Snapshot.builder 14)
    Pipeline.oneFile [.launch "AUSDT" "first" b Pipeline.noon, .turn 0,
      .call (.disableFor "AUSDT" 3600 Pipeline.noon.now)]
  obtain ⟨-, hgain⟩ := hlater (secondRun b)
  obtain ⟨new, hnew, hinvalid, -⟩ := hgain 1 f hf hforce
  intro step hstep
  refine hinvalid ⟨46800, 0⟩ (by rw [hsymbol]; exact huntil) (by rw [hnow]; decide) step ?_
  -- the second run had not been launched when the symbol was disabled
  have hnone : (disabledDesk b).stepsAt 1 = [] := by
    have hlen := congrArg List.length hvalid
    rw [List.length_map] at hlen
    exact stepsAt_of_none (List.getElem?_eq_none (by rw [hlen]; decide))
  rw [hnew] at hstep
  exact (List.mem_append.mp hstep).resolve_left (by rw [← disabledDesk, hnone]; simp)

end Desk

end TopDown
