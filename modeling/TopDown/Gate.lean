import TopDown.Bar
import TopDown.Book.Evaluate
import TopDown.KillSwitch
import TopDown.StepResult

/-!
# Taking a step by the rules

A step of a cascade passes several gates before its rules are checked: there must be enough bars, the
newest one must be closed, the kill switch must allow the symbol, and the current bar must have been
open for the grace window. The first gate that is shut decides the step. A symbol with too few bars
is disabled for as long as the missing bars will take to arrive.

Bars come from a `TopDown.BarSource` and contexts from a `TopDown.ContextBuilder`. Both belong to the
surroundings: they may fail, and the source may change its own state.
-/

namespace TopDown

/-! ### The surroundings -/

/-- The name of a run. -/
abbrev RunId := String

/-- Where bars come from. -/
structure BarSource (σ : Type) where
  /-- The latest bars of a symbol, oldest first, and at most so many. -/
  bars : String → Timeframe → UInt64 → σ → Except Stop (List Bar) × σ
  /-- The latest bar of a symbol. -/
  last : String → Timeframe → σ → Except Stop (Option Bar) × σ

/-- How a context is made of the bars of a symbol, in a run and after the given signals. -/
abbrev ContextBuilder :=
  String → Timeframe → List Bar → RunId → List KnownSignal → Except Stop Context

/-- The state that all runs share. -/
structure World (σ : Type) where
  /-- What is switched off. -/
  switch : KillSwitch
  /-- The state of the source of bars. -/
  source : σ

/-- Which gates a run passes by. -/
structure Flags where
  /-- Pass by all gates but the first. -/
  forceRun : Bool := false
  /-- Pass by the second gate. -/
  forceFresh : Bool := false
  deriving DecidableEq, Repr, Inhabited

/-- The newest bar need not be closed. -/
def Flags.skipsFreshness (f : Flags) : Bool :=
  f.forceRun || f.forceFresh

/-- What a step knows of its run. -/
structure RunView where
  /-- The name of the run. -/
  runId : RunId
  /-- The time. -/
  now : Instant
  /-- The signals of the coarser timeframes. -/
  prior : List KnownSignal
  /-- Which gates are passed by. -/
  flags : Flags
  /-- The rules. -/
  book : Book

/-- How a step of a symbol is taken. It may break down, and it may change the shared state. -/
abbrev Processor (σ : Type) := String → RunView → σ → Except Crash StepResult × σ

/-! ### Gates -/

/-- The bars that must be at hand on a timeframe without rules. -/
def barsWithoutBlock : UInt64 := 50

/-- The bars that must be at hand. -/
def Book.minBars (b : Book) (tf : Timeframe) : UInt64 :=
  match b.blocks tf with
  | some block => block.minBars
  | none => barsWithoutBlock

/-- The seconds that the missing bars take. The number of bars is a signed one of 32 bits. -/
def shortfallSeconds (tf : Timeframe) (needed available : Nat) : Int :=
  tf.stepSeconds * Int.bmod (needed - available) UInt32.size

/-- The current bar of the timeframe is still in its grace window. -/
def inGraceWindow (b : Book) (tf : Timeframe) (now : Instant) : Bool :=
  match b.blocks tf with
  | some block =>
    decide (0 < block.graceSeconds)
      && decide (now.nanosSince (tf.barOpen now) < block.graceSeconds * Instant.nanosOfSecond)
  | none => false

/-- The gates behind the first one, in order: the result of the first that is shut. -/
def shutGate (tf : Timeframe) (symbol : String) (view : RunView) (switch : KillSwitch)
    (last : Bar) : Except Crash (Option StepResult) := do
  let fresh ← if view.flags.skipsFreshness then pure true else last.isClosedAt view.now
  if !fresh then return some (.skipped tf .tooRecent)
  else if view.flags.forceRun then return none
  else if !switch.allows symbol tf view.now then return some (.skipped tf .killSwitchOff)
  else if inGraceWindow view.book tf view.now then return some (.graceWindow tf)
  else return none

/-! ### The verdict -/

/-- What the verdicts of two lists of rules amount to. -/
def judge (tf : Timeframe) (long short : List Labelled) : StepResult :=
  let longVerdicts := long.map (·.verdict)
  let shortVerdicts := short.map (·.verdict)
  let result : StepResult :=
    if Verdict.decidedCount longVerdicts + Verdict.decidedCount shortVerdicts = 0 then
      .invalid tf .undecided
    else
      .valid tf (.resolve (Verdict.allPassed longVerdicts) (Verdict.allPassed shortVerdicts))
  { result with long, short }

/-- The result of checking the rules of a timeframe against a context. -/
def checkRules (b : Book) (tf : Timeframe) (c : Context) : Except Crash StepResult :=
  match b.blocks tf with
  | none => .ok (.invalid tf .noRules)
  | some block =>
    if block.isEmpty then .ok (.invalid tf .noRules)
    else
      let long := b.evaluateList c block.long
      let short := b.evaluateList c block.short
      match Verdict.firstCrash ((long ++ short).map (·.verdict)) with
      | some crash => .error crash
      | none => .ok (judge tf long short)

/-! ### The step -/

/-- The outcome of a computation that stopped: a fault makes an error of the step. -/
def StepResult.ofStop (tf : Timeframe) : Stop → Except Crash StepResult
  | .fault f => .ok (.failed tf f.message)
  | .crash c => .error c

/-- The step behind the first gate: the other gates, then the rules. -/
def stepBehindBars (build : ContextBuilder) (tf : Timeframe) (symbol : String) (view : RunView)
    (switch : KillSwitch) (bars : List Bar) (last : Bar) : Except Crash StepResult := do
  match ← shutGate tf symbol view switch last with
  | some result => return result
  | none =>
    match build symbol tf bars view.runId view.prior with
    | .error stop => StepResult.ofStop tf stop
    | .ok c =>
      let result ← checkRules view.book tf c
      return { result with
        barTime := some last.openTime
        price := (c.number "close").or (some last.close)
        atr := c.number "atr"
        context := some c }

/-- A step for which too few bars are at hand: the symbol is disabled until they have arrived. -/
def stepShortOfBars {σ : Type} (tf : Timeframe) (symbol : String) (view : RunView)
    (needed available : Nat) (w : World σ) : Except Crash StepResult × World σ :=
  match w.switch.disableFor symbol (shortfallSeconds tf needed available) view.now with
  | .ok switch => (.ok (.skipped tf .insufficientData), { w with switch })
  | .error crash => (.error crash, w)

/-- Takes a step by the rules of the book. -/
def takeStep {σ : Type} (source : BarSource σ) (build : ContextBuilder) (tf : Timeframe) :
    Processor (World σ) := fun symbol view w =>
  let needed := view.book.minBars tf
  match source.bars symbol tf needed w.source with
  | (.error stop, s) => (StepResult.ofStop tf stop, { w with source := s })
  | (.ok bars, s) =>
    let w := { w with source := s }
    if bars.length < needed.toNat then stepShortOfBars tf symbol view needed.toNat bars.length w
    else
      match source.last symbol tf w.source with
      | (.error stop, s) => (StepResult.ofStop tf stop, { w with source := s })
      | (.ok last, s) =>
        let w := { w with source := s }
        match last.or bars.getLast? with
        | none => (.ok (.skipped tf .insufficientData), w)
        | some last => (stepBehindBars build tf symbol view w.switch bars last, w)

/-- The steps of all timeframes, taken by the rules of the book. -/
def ruleProcessors {σ : Type} (source : BarSource σ) (build : ContextBuilder) :
    ByTimeframe (Processor (World σ)) :=
  fun tf => some (takeStep source build tf)

end TopDown
