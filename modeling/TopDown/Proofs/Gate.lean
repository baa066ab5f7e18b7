import TopDown.Gate
import TopDown.Proofs.Bind

/-!
# What a valid step rests on

A step that is taken by the rules passes its gates one after the other, and only behind the last of
them are the rules checked. `TopDown.takeStep_valid` says what has happened when a step comes out
valid: enough bars, a closed newest bar, an open kill switch, no grace window, and a side that the
lists of rules speak for. All of it is kept together in `TopDown.Backing`.
-/

namespace TopDown

/-! ### Lists of verdicts -/

/-- **The list carries its side**: it has a decided verdict, and no decided verdict is a failure. -/
def Carries (list : List Labelled) : Prop :=
  (∃ l ∈ list, l.verdict.missing = false) ∧
    ∀ l ∈ list, l.verdict.missing = false → l.verdict.passed = true

/-- What the lists of rules say about a side. Where both carry theirs, buying wins. -/
def Speaks (side : Side) (long short : List Labelled) : Prop :=
  match side with
  | .long => Carries long
  | .short => Carries short ∧ ¬Carries long
  | .none => ¬Carries short ∧ ¬Carries long

theorem allPassed_iff (list : List Labelled) :
    Verdict.allPassed (list.map (·.verdict)) = true ↔ Carries list := by
  simp [Verdict.allPassed, Verdict.fails, Carries]

/-- The side of a judgement is the one that the lists speak for. -/
theorem speaks_resolve (long short : List Labelled) :
    Speaks (.resolve (Verdict.allPassed (long.map (·.verdict)))
      (Verdict.allPassed (short.map (·.verdict)))) long short := by
  have hl := allPassed_iff long
  have hs := allPassed_iff short
  cases hlong : Verdict.allPassed (long.map (·.verdict)) with
  | true => exact hl.mp hlong
  | false =>
    have hnl : ¬Carries long := fun h => by simp [hl.mpr h] at hlong
    cases hshort : Verdict.allPassed (short.map (·.verdict)) with
    | true => exact ⟨hs.mp hshort, hnl⟩
    | false => exact ⟨fun h => by simp [hs.mpr h] at hshort, hnl⟩

/-! ### The gates -/

/-- The current bar has been open for at least the grace window of the block. -/
def PastGrace (block : Block) (tf : Timeframe) (now : Instant) : Prop :=
  block.graceSeconds ≤ 0 ∨
    block.graceSeconds * Instant.nanosOfSecond ≤ now.nanosSince (tf.barOpen now)

theorem inGraceWindow_eq_false {b : Book} {tf : Timeframe} {now : Instant} {block : Block}
    (hb : b.blocks tf = some block) (h : inGraceWindow b tf now = false) :
    PastGrace block tf now := by
  unfold inGraceWindow at h
  rw [hb] at h
  rcases Bool.and_eq_false_iff.mp h with h | h
  · exact .inl (Int.not_lt.mp (of_decide_eq_false h))
  · exact .inr (Int.not_lt.mp (of_decide_eq_false h))

/-- The newest bar is closed, or it need not be. -/
def freshness (view : RunView) (last : Bar) : Except Crash Bool :=
  if view.flags.skipsFreshness then .ok true else last.isClosedAt view.now

/-- The gates in order. Only the first of them can break down. -/
theorem shutGate_eq (tf : Timeframe) (symbol : String) (view : RunView) (switch : KillSwitch)
    (last : Bar) : shutGate tf symbol view switch last =
      freshness view last >>= fun fresh => .ok (
        if fresh = false then some (.skipped tf .tooRecent)
        else if view.flags.forceRun = true then none
        else if switch.allows symbol tf view.now = false then some (.skipped tf .killSwitchOff)
        else if inGraceWindow view.book tf view.now = true then some (.graceWindow tf)
        else none) := by
  have hbody (fresh : Bool) : (do
      if !fresh then return some (.skipped tf .tooRecent)
      else if view.flags.forceRun then return none
      else if !switch.allows symbol tf view.now then return some (.skipped tf .killSwitchOff)
      else if inGraceWindow view.book tf view.now then return some (.graceWindow tf)
      else return none : Except Crash (Option StepResult)) = .ok (
        if fresh = false then some (.skipped tf .tooRecent)
        else if view.flags.forceRun = true then none
        else if switch.allows symbol tf view.now = false then some (.skipped tf .killSwitchOff)
        else if inGraceWindow view.book tf view.now = true then some (.graceWindow tf)
        else none) := by
    cases fresh <;> cases view.flags.forceRun <;> cases switch.allows symbol tf view.now <;>
      cases inGraceWindow view.book tf view.now <;> rfl
  unfold shutGate freshness
  by_cases hs : view.flags.skipsFreshness = true
  · rw [if_pos hs, if_pos hs]
    exact hbody true
  · rw [if_neg hs, if_neg hs]
    exact congrArg (last.isClosedAt view.now >>= ·) (funext hbody)

/-- Where no gate is shut, each of them is open or passed by. -/
theorem shutGate_none {tf : Timeframe} {symbol : String} {view : RunView} {switch : KillSwitch}
    {last : Bar} (h : shutGate tf symbol view switch last = .ok none) :
    (view.flags.forceRun = true ∨ view.flags.forceFresh = true ∨
        last.isClosedAt view.now = .ok true) ∧
      (view.flags.forceRun = true ∨ switch.allows symbol tf view.now = true ∧
        inGraceWindow view.book tf view.now = false) := by
  rw [shutGate_eq] at h
  obtain ⟨fresh, hfresh, h⟩ := bind_eq_ok.mp h
  simp only [Except.ok.injEq] at h
  cases fresh with
  | false => cases h
  | true =>
    refine ⟨?_, ?_⟩
    · unfold freshness at hfresh
      split at hfresh
      · rename_i hskip
        rcases (Bool.or_eq_true _ _).mp hskip with hrun | hforce
        · exact .inl hrun
        · exact .inr (.inl hforce)
      · exact .inr (.inr hfresh)
    · by_cases hrun : view.flags.forceRun = true
      · exact .inl hrun
      · rw [if_neg (by decide), if_neg hrun] at h
        split at h
        · cases h
        · rename_i hallows
          split at h
          · cases h
          · exact .inr ⟨by simpa using hallows, by simpa using ‹¬inGraceWindow _ _ _ = true›⟩

/-- What the gates that can be shut make of a step. -/
theorem shutGate_cases {tf : Timeframe} {symbol : String} {view : RunView} {switch : KillSwitch}
    {last : Bar} {result : StepResult}
    (h : shutGate tf symbol view switch last = .ok (some result)) :
    result = .skipped tf .tooRecent ∨ result = .skipped tf .killSwitchOff ∨
      result = .graceWindow tf := by
  rw [shutGate_eq] at h
  obtain ⟨fresh, -, h⟩ := bind_eq_ok.mp h
  simp only [Except.ok.injEq] at h
  split at h
  · cases h
    exact .inl rfl
  · split at h
    · cases h
    · split at h
      · cases h
        exact .inr (.inl rfl)
      · split at h
        · cases h
          exact .inr (.inr rfl)
        · cases h

/-- A gate that is shut gives no valid step. -/
theorem shutGate_some {tf : Timeframe} {symbol : String} {view : RunView} {switch : KillSwitch}
    {last : Bar} {result : StepResult}
    (h : shutGate tf symbol view switch last = .ok (some result)) : result.isValid = false := by
  rcases shutGate_cases h with rfl | rfl | rfl <;> rfl

/-! ### The verdict -/

theorem valid_of_judge {tf : Timeframe} {long short : List Labelled}
    (h : (judge tf long short).isValid = true) :
    judge tf long short =
      { StepResult.valid tf (.resolve (Verdict.allPassed (long.map (·.verdict)))
          (Verdict.allPassed (short.map (·.verdict)))) with long, short } := by
  by_cases hd : Verdict.decidedCount (long.map (·.verdict)) +
      Verdict.decidedCount (short.map (·.verdict)) = 0
  · simp only [judge, if_pos hd] at h
    cases h
  · simp only [judge, if_neg hd]

/-- A valid verdict has the block of its timeframe behind it, and the side of its lists. -/
theorem checkRules_valid {b : Book} {tf : Timeframe} {c : Context} {result : StepResult}
    (h : checkRules b tf c = .ok result) (hv : result.isValid = true) :
    ∃ block, b.blocks tf = some block ∧ result.timeframe = tf ∧
      result.long = b.evaluateList c block.long ∧ result.short = b.evaluateList c block.short ∧
      Speaks result.side result.long result.short := by
  unfold checkRules at h
  split at h
  · cases h
    cases hv
  · rename_i block hb
    refine ⟨block, hb, ?_⟩
    split at h
    · cases h
      cases hv
    · dsimp only at h
      split at h
      · cases h
      · cases h
        rw [valid_of_judge hv]
        exact ⟨rfl, rfl, rfl, speaks_resolve _ _⟩

/-! ### The step -/

section Backing

variable {σ : Type} (source : BarSource σ) (build : ContextBuilder) (symbol : String)
  (view : RunView) (tf : Timeframe) (w : World σ) (step : StepResult) (w' : World σ)

/-- **What a valid step rests on**, in the shared state in which it was taken: the bars and the
context that were looked at, and every gate that was passed on the way to the rules. -/
structure Backing where
  /-- The rules of the timeframe. -/
  block : Block
  /-- The bars at hand. -/
  bars : List Bar
  /-- The newest bar of the source, if it has one. -/
  newest : Option Bar
  /-- The bar that counts as the newest. -/
  last : Bar
  /-- The state of the source between the two questions. -/
  between : σ
  /-- What the rules were checked against. -/
  context : Context
  /-- The book has rules for the timeframe. -/
  block_eq : view.book.blocks tf = some block
  /-- The source was asked for as many bars as the rules need. -/
  bars_eq : source.bars symbol tf block.minBars w.source = (.ok bars, between)
  /-- There were enough of them. -/
  enough : block.minBars.toNat ≤ bars.length
  /-- The source was asked for its newest bar. -/
  newest_eq : source.last symbol tf between = (.ok newest, w'.source)
  /-- Where it has none, the last of the bars at hand counts. -/
  last_eq : newest.or bars.getLast? = some last
  /-- The newest bar was closed. -/
  closed : view.flags.forceRun = true ∨ view.flags.forceFresh = true ∨
    last.isClosedAt view.now = .ok true
  /-- The kill switch allowed the symbol. -/
  allowed : view.flags.forceRun = true ∨ w.switch.allows symbol tf view.now = true
  /-- The grace window was over. -/
  grace : view.flags.forceRun = true ∨ PastGrace block tf view.now
  /-- The context was made of the bars. -/
  context_eq : build symbol tf bars view.runId view.prior = .ok context
  /-- The step is that of the timeframe. -/
  timeframe_eq : step.timeframe = tf
  /-- The context is kept. -/
  kept : step.context = some context
  /-- The rules for buying were checked. -/
  long_eq : step.long = view.book.evaluateList context block.long
  /-- The rules for selling were checked. -/
  short_eq : step.short = view.book.evaluateList context block.short
  /-- The side is the one that the rules speak for. -/
  speaks : Speaks step.side step.long step.short
  /-- A valid step leaves the kill switch alone. -/
  switch_eq : w'.switch = w.switch

end Backing

theorem ofStop_isValid {tf : Timeframe} {stop : Stop} {step : StepResult}
    (h : StepResult.ofStop tf stop = .ok step) : step.isValid = false := by
  cases stop with
  | fault f =>
    cases h
    rfl
  | crash c => cases h

/-- A valid step behind the first gate has passed the others, and the rules have been checked. -/
theorem stepBehindBars_valid {build : ContextBuilder} {tf : Timeframe} {symbol : String}
    {view : RunView} {switch : KillSwitch} {bars : List Bar} {last : Bar} {step : StepResult}
    (h : stepBehindBars build tf symbol view switch bars last = .ok step)
    (hv : step.isValid = true) :
    shutGate tf symbol view switch last = .ok none ∧
      ∃ c result, build symbol tf bars view.runId view.prior = .ok c ∧
        checkRules view.book tf c = .ok result ∧
        step = { result with
          barTime := some last.openTime
          price := (c.number "close").or (some last.close)
          atr := c.number "atr"
          context := some c } := by
  unfold stepBehindBars at h
  obtain ⟨shut, hshut, h⟩ := bind_eq_ok.mp h
  cases shut with
  | some result =>
    cases h
    rw [shutGate_some hshut] at hv
    cases hv
  | none =>
    refine ⟨hshut, ?_⟩
    cases hbuild : build symbol tf bars view.runId view.prior with
    | error stop =>
      simp only [hbuild] at h
      rw [ofStop_isValid h] at hv
      cases hv
    | ok c =>
      simp only [hbuild] at h
      obtain ⟨result, hcheck, h⟩ := bind_eq_ok.mp h
      cases h
      exact ⟨c, result, rfl, hcheck, rfl⟩

/-- **A valid step is backed**: none of its gates was shut, and its side is that of its rules. -/
theorem takeStep_valid {σ : Type} {source : BarSource σ} {build : ContextBuilder} {tf : Timeframe}
    {symbol : String} {view : RunView} {w w' : World σ} {step : StepResult}
    (h : takeStep source build tf symbol view w = (.ok step, w')) (hv : step.isValid = true) :
    Nonempty (Backing source build symbol view tf w step w') := by
  unfold takeStep at h
  rcases hbars : source.bars symbol tf (view.book.minBars tf) w.source with ⟨answer, s₁⟩
  cases answer with
  | error stop =>
    simp only [hbars, Prod.mk.injEq] at h
    rw [ofStop_isValid h.1] at hv
    cases hv
  | ok bars =>
    simp only [hbars] at h
    split at h
    · -- too few bars
      unfold stepShortOfBars at h
      split at h
      · cases h
        cases hv
      · cases h
    · rename_i henough
      rcases hlast : source.last symbol tf s₁ with ⟨answer, s₂⟩
      cases answer with
      | error stop =>
        simp only [hlast, Prod.mk.injEq] at h
        rw [ofStop_isValid h.1] at hv
        cases hv
      | ok newest =>
        simp only [hlast] at h
        split at h
        · cases h
          cases hv
        · rename_i last hor
          rw [Prod.mk.injEq] at h
          obtain ⟨hstep, rfl⟩ := h
          obtain ⟨hshut, c, result, hbuild, hcheck, rfl⟩ := stepBehindBars_valid hstep hv
          obtain ⟨hclosed, hopen⟩ := shutGate_none hshut
          obtain ⟨block, hb, htf, hlong, hshort, hspeaks⟩ := checkRules_valid hcheck hv
          have hneeded : view.book.minBars tf = block.minBars := by
            unfold Book.minBars
            rw [hb]
          rw [hneeded] at hbars henough
          exact ⟨⟨block, bars, newest, last, s₁, c, hb, hbars, Nat.not_lt.mp henough, hlast, hor,
            hclosed, hopen.imp_right And.left,
            hopen.imp_right fun ho => inGraceWindow_eq_false hb ho.2, hbuild, htf, rfl, hlong,
            hshort, hspeaks, rfl⟩⟩

end TopDown
